import Mathlib.Data.BitVec
import Mathlib.Logic.Function.Basic
import Upmem.Lib.Owners
import Upmem.Lib.Transitions

namespace Upmem.VMutex
open Owners Transitions

/-- `struct vmutex`. -/
structure Vmutex where
  vm : BitVec 32
  hwMutexes : BitVec 32
  hwMutexesMask : BitVec 8

/-- The address of the byte of a virtual mutex. -/
def Vmutex.r8 (v : Vmutex) (id : BitVec 16) : BitVec 32 := v.vm + id.setWidth 32 >>> 3

/-- The bit of a virtual mutex in its byte. -/
def r9 (id : BitVec 16) : BitVec 32 := 1#32 <<< (id.setWidth 32 &&& 7#32)

/-- The hardware mutex that protects a virtual mutex. -/
def Vmutex.r10 (v : Vmutex) (id : BitVec 16) : BitVec 32 :=
  (id.setWidth 32 >>> 3 &&& v.hwMutexesMask.setWidth 32) + v.hwMutexes

inductive Function
  | vmutexLock | vmutexUnlock
  deriving DecidableEq

/-- The byte after the update. -/
def Function.r12 (function : Function) (id : BitVec 16) (r11 : BitVec 32) : BitVec 32 :=
  match function with
  | .vmutexLock => r11 ||| r9 id
  | .vmutexUnlock => r11 &&& (BitVec.allOnes 32 ^^^ r9 id)

/-- Where a tasklet is in a call: the next instruction is the one of the name. -/
inductive Place
  | outside
  | acquire (function : Function) (id : BitVec 16)
  | lbu (function : Function) (id : BitVec 16)
  | update (function : Function) (id : BitVec 16) (r11 : BitVec 32)
  | sb (function : Function) (id : BitVec 16) (r11 r12 : BitVec 32)
  | release (function : Function) (id : BitVec 16) (r11 r12 : BitVec 32)
  | jeq (id : BitVec 16) (r11 r12 : BitVec 32)

/-- Tasklets `τ` that share the WRAM and the atomic bits `β`. A tasklet holds
the virtual mutexes that it has locked and not begun to unlock. -/
structure State (τ β : Type) where
  wram : BitVec 32 → BitVec 8
  atomicBits : β → Bool
  place : τ → Place
  held : τ → BitVec 16 → Bool

section Steps
variable {τ β : Type} [DecidableEq τ] [DecidableEq β]

def State.move (s : State τ β) (tasklet : τ) (place : Place) : State τ β :=
  { s with place := Function.update s.place tasklet place }

def State.setHeld (s : State τ β) (tasklet : τ) (id : BitVec 16) (value : Bool) : State τ β :=
  { s with held := Function.update s.held tasklet (Function.update (s.held tasklet) id value) }

/-- Where `release` leads to. -/
def Place.released (function : Function) (id : BitVec 16) (r11 r12 : BitVec 32) : Place :=
  match function with
  | .vmutexLock => .jeq id r11 r12
  | .vmutexUnlock => .outside

/-- The instructions of the tasklets one at a time, for the first `nbVmutexes`
virtual mutexes. A tasklet unlocks what it holds. The acquire of a hardware
mutex that is taken is not a step: the tasklet tries again. -/
inductive Step (v : Vmutex) (atomicBit : BitVec 32 → β) (nbVmutexes : Nat) :
    State τ β → Option τ → State τ β → Prop
  | lock {s tasklet} (id : BitVec 16) : id.toNat < nbVmutexes → s.place tasklet = .outside →
      Step v atomicBit nbVmutexes s (some tasklet) (s.move tasklet (.acquire .vmutexLock id))
  | unlock {s tasklet} (id : BitVec 16) : s.place tasklet = .outside → s.held tasklet id = true →
      Step v atomicBit nbVmutexes s (some tasklet)
        ((s.setHeld tasklet id false).move tasklet (.acquire .vmutexUnlock id))
  | acquire {s tasklet function id} : s.place tasklet = .acquire function id →
      s.atomicBits (atomicBit (v.r10 id)) = false →
      Step v atomicBit nbVmutexes s (some tasklet) { s.move tasklet (.lbu function id) with
        atomicBits := Function.update s.atomicBits (atomicBit (v.r10 id)) true }
  | lbu {s tasklet function id} : s.place tasklet = .lbu function id →
      Step v atomicBit nbVmutexes s (some tasklet)
        (s.move tasklet (.update function id ((s.wram (v.r8 id)).setWidth 32)))
  | update {s tasklet function id r11} : s.place tasklet = .update function id r11 →
      Step v atomicBit nbVmutexes s (some tasklet) (s.move tasklet (.sb function id r11 (function.r12 id r11)))
  | sb {s tasklet function id r11 r12} : s.place tasklet = .sb function id r11 r12 →
      Step v atomicBit nbVmutexes s (some tasklet) { s.move tasklet (.release function id r11 r12) with
        wram := Function.update s.wram (v.r8 id) (r12.setWidth 8) }
  | release {s tasklet function id r11 r12} : s.place tasklet = .release function id r11 r12 →
      Step v atomicBit nbVmutexes s (some tasklet) { s.move tasklet (.released function id r11 r12) with
        atomicBits := Function.update s.atomicBits (atomicBit (v.r10 id)) false }
  | again {s tasklet id r11 r12} : s.place tasklet = .jeq id r11 r12 → r11 = r12 →
      Step v atomicBit nbVmutexes s (some tasklet) (s.move tasklet (.acquire .vmutexLock id))
  | locked {s tasklet id r11 r12} : s.place tasklet = .jeq id r11 r12 → r11 ≠ r12 →
      Step v atomicBit nbVmutexes s (some tasklet) ((s.setHeld tasklet id true).move tasklet .outside)
  -- The rest of the program leaves the bytes and the hardware mutexes of the virtual mutexes alone.
  | other {s} (wram : BitVec 32 → BitVec 8) (atomicBits : β → Bool) :
      (∀ id : BitVec 16, id.toNat < nbVmutexes → wram (v.r8 id) = s.wram (v.r8 id)) →
      (∀ id : BitVec 16, id.toNat < nbVmutexes →
        atomicBits (atomicBit (v.r10 id)) = s.atomicBits (atomicBit (v.r10 id))) →
      Step v atomicBit nbVmutexes s none { s with wram := wram, atomicBits := atomicBits }

/-- `VMUTEX_INIT`. -/
structure State.Init (v : Vmutex) (atomicBit : BitVec 32 → β) (nbVmutexes : Nat) (s : State τ β) : Prop where
  bytes : ∀ id : BitVec 16, id.toNat < nbVmutexes → s.wram (v.r8 id) = 0#8
  free : ∀ id : BitVec 16, id.toNat < nbVmutexes → s.atomicBits (atomicBit (v.r10 id)) = false
  outside : ∀ tasklet, s.place tasklet = .outside
  held : ∀ tasklet id, s.held tasklet id = false

end Steps

/-- The bit of a virtual mutex in the WRAM. -/
def Vmutex.bit (v : Vmutex) (wram : BitVec 32 → BitVec 8) (id : BitVec 16) : Bool :=
  (wram (v.r8 id)).getLsbD (id.toNat % 8)

/-- The hardware mutex that a tasklet has at a place. -/
def Place.Inside (v : Vmutex) (atomicBit : BitVec 32 → β) : Place → β → Prop
  | .lbu _ id, bit | .update _ id _, bit | .sb _ id _ _, bit | .release _ id _ _, bit => atomicBit (v.r10 id) = bit
  | _, _ => False

/-- The virtual mutex that a tasklet has at a place: the one that a lock has
found free and taken, or that an unlock has not let go yet. -/
def Place.Has : Place → BitVec 16 → Prop
  | .release .vmutexLock id r11 _, key | .jeq id r11 _, key => id = key ∧ r11.getLsbD (id.toNat % 8) = false
  | .acquire .vmutexUnlock id, key | .lbu .vmutexUnlock id, key | .update .vmutexUnlock id _, key
  | .sb .vmutexUnlock id _ _, key => id = key
  | _, _ => False

/-- The registers are up to date. -/
def Place.Current (v : Vmutex) (wram : BitVec 32 → BitVec 8) (nbVmutexes : Nat) : Place → Prop
  | .outside => True
  | .acquire _ id | .lbu _ id => id.toNat < nbVmutexes
  | .update _ id r11 => id.toNat < nbVmutexes ∧ r11 = (wram (v.r8 id)).setWidth 32
  | .sb function id r11 r12 =>
    id.toNat < nbVmutexes ∧ r11 = (wram (v.r8 id)).setWidth 32 ∧ r12 = function.r12 id r11
  | .release function id r11 r12 => id.toNat < nbVmutexes ∧ r12 = function.r12 id r11
  | .jeq id r11 r12 => id.toNat < nbVmutexes ∧ r12 = Function.r12 .vmutexLock id r11

section Bits
variable {v : Vmutex} {id key : BitVec 16}

theorem toNat_index (id : BitVec 16) : (id.setWidth 32 >>> 3).toNat = id.toNat / 8 := by
  have small := id.isLt
  rw [BitVec.toNat_ushiftRight, BitVec.toNat_setWidth, Nat.mod_eq_of_lt (by omega), Nat.shiftRight_eq_div_pow]

theorem r8_eq_iff : v.r8 id = v.r8 key ↔ id.toNat / 8 = key.toNat / 8 := by
  rw [Vmutex.r8, Vmutex.r8, BitVec.add_right_inj, ← BitVec.toNat_inj, toNat_index, toNat_index]

/-- One byte, one hardware mutex. -/
theorem r10_of_r8 (same : v.r8 id = v.r8 key) : v.r10 id = v.r10 key := by
  have index : id.setWidth 32 >>> 3 = key.setWidth 32 >>> 3 := by
    rw [← BitVec.toNat_inj, toNat_index, toNat_index]
    exact r8_eq_iff.mp same
  rw [Vmutex.r10, Vmutex.r10, index]

theorem getLsbD_r9 {i : Nat} (_ : i < 32) : (r9 id).getLsbD i = decide (i = id.toNat % 8) := by
  have small := id.isLt
  have shift : (id.setWidth 32 &&& 7#32).toNat = id.toNat % 8 := by
    rw [BitVec.toNat_and, BitVec.toNat_setWidth, Nat.mod_eq_of_lt (by omega)]
    exact Nat.and_two_pow_sub_one_eq_mod id.toNat 3
  rw [r9, BitVec.shiftLeft_eq', shift, BitVec.getLsbD_shiftLeft, BitVec.getLsbD_one]
  by_cases here : i = id.toNat % 8
  · simp [here]
    omega
  · by_cases below : i < id.toNat % 8
    · simp [below, here]
    · have apart : i - id.toNat % 8 ≠ 0 := by omega
      simp [apart, here]

/-- A virtual mutex is its byte and its bit. -/
theorem eq_iff : id = key ↔ v.r8 id = v.r8 key ∧ id.toNat % 8 = key.toNat % 8 := by
  rw [r8_eq_iff, ← BitVec.toNat_inj]
  omega

/-- The functions change the bit of their virtual mutex only. -/
theorem getLsbD_r12 {i : Nat} (inside : i < 32) (function : Function) (r11 : BitVec 32) :
    (function.r12 id r11).getLsbD i =
      if i = id.toNat % 8 then decide (function = .vmutexLock) else r11.getLsbD i := by
  cases function with
  | vmutexLock =>
    rw [Function.r12, BitVec.getLsbD_or, getLsbD_r9 inside]
    split_ifs with here <;> simp [here]
  | vmutexUnlock =>
    rw [Function.r12, BitVec.getLsbD_and, BitVec.getLsbD_xor, BitVec.getLsbD_allOnes, getLsbD_r9 inside]
    split_ifs with here <;> simp [here, inside]
    omega

theorem bit_r12 {wram : BitVec 32 → BitVec 8} (function : Function) (id key : BitVec 16) :
    v.bit (Function.update wram (v.r8 id) ((function.r12 id ((wram (v.r8 id)).setWidth 32)).setWidth 8)) key =
      if key = id then decide (function = .vmutexLock) else v.bit wram key := by
  have low : key.toNat % 8 < 8 := Nat.mod_lt _ (by omega)
  by_cases byte : v.r8 key = v.r8 id
  · have apart : key = id ↔ key.toNat % 8 = id.toNat % 8 := by
      rw [@eq_iff v]
      exact and_iff_right byte
    rw [Vmutex.bit, Vmutex.bit, byte, Function.update_self, BitVec.getLsbD_setWidth, decide_eq_true low,
      Bool.true_and,
      getLsbD_r12 (by omega), BitVec.getLsbD_setWidth, decide_eq_true (by omega : key.toNat % 8 < 32),
        Bool.true_and]
    exact if_congr apart.symm rfl rfl
  · have apart : key ≠ id := fun same => byte (same ▸ rfl)
    rw [Vmutex.bit, Vmutex.bit, Function.update_of_ne byte, if_neg apart]

/-- A lock does not change the byte if the bit was set. -/
theorem eq_r12_lock_iff {r11 : BitVec 32} :
    r11 = Function.r12 .vmutexLock id r11 ↔ r11.getLsbD (id.toNat % 8) = true := by
  have low : id.toNat % 8 < 32 := by omega
  constructor
  · intro same
    rw [same, getLsbD_r12 low, if_pos rfl, decide_eq_true rfl]
  · intro set
    refine BitVec.eq_of_getLsbD_eq fun i inside => ?_
    rw [getLsbD_r12 inside]
    split_ifs with here
    · rw [here, set, decide_eq_true rfl]
    · rfl

end Bits

section Owners
variable {τ β : Type}

/-- A tasklet has a virtual mutex that it holds or that it is about to hold or to let go. -/
def State.Owns (s : State τ β) (tasklet : τ) (id : BitVec 16) : Prop :=
  s.held tasklet id = true ∨ (s.place tasklet).Has id

structure State.Sound (v : Vmutex) (atomicBit : BitVec 32 → β) (nbVmutexes : Nat) (s : State τ β) : Prop where
  hardware : Owned (fun bit => ∃ id : BitVec 16, id.toNat < nbVmutexes ∧ atomicBit (v.r10 id) = bit) s.atomicBits
    fun tasklet bit => (s.place tasklet).Inside v atomicBit bit
  virtual : Owned (fun id : BitVec 16 => id.toNat < nbVmutexes) (v.bit s.wram) s.Owns
  current : ∀ tasklet, (s.place tasklet).Current v s.wram nbVmutexes
  known : ∀ tasklet id, s.held tasklet id = true → id.toNat < nbVmutexes
  apart : ∀ tasklet id, s.held tasklet id = true → ¬(s.place tasklet).Has id

variable [DecidableEq τ] {v : Vmutex} {atomicBit : BitVec 32 → β} {nbVmutexes : Nat} {s t : State τ β}
  {tasklet : τ} {place : Place}

omit [DecidableEq τ] in
theorem State.Init.sound (init : s.Init v atomicBit nbVmutexes) : s.Sound v atomicBit nbVmutexes where
  hardware := by
    refine Owned.of_free (fun bit ⟨id, known, same⟩ => same ▸ init.free id known) fun tasklet bit inside => ?_
    rw [init.outside tasklet] at inside
    exact inside
  virtual := by
    refine Owned.of_free (fun id known => ?_) fun tasklet id owner => ?_
    · rw [Vmutex.bit, init.bytes id known, BitVec.getLsbD_zero]
    · rw [State.Owns, init.held tasklet id, init.outside tasklet] at owner
      rcases owner with held | has
      · cases held
      · exact has
  current tasklet := by
    rw [init.outside tasklet]
    trivial
  known tasklet id held := by
    rw [init.held tasklet id] at held
    cases held
  apart tasklet id held := by
    rw [init.held tasklet id] at held
    cases held

theorem held_setHeld (id : BitVec 16) (value : Bool) (key : BitVec 16) :
    (s.setHeld tasklet id value).held tasklet key = if key = id then value else s.held tasklet key := by
  change Function.update s.held tasklet _ tasklet key = _
  rw [Function.update_self, Function.update_apply]

section Moves
variable (moved : t.place = Function.update s.place tasklet place)
include moved

theorem inside_of_move (other : τ) (bit : β) : (t.place other).Inside v atomicBit bit ↔
    if other = tasklet then place.Inside v atomicBit bit else (s.place other).Inside v atomicBit bit := by
  rw [moved, Function.update_apply]
  split_ifs <;> rfl

theorem owns_of_move (held : ∀ other, other ≠ tasklet → t.held other = s.held other) (other : τ) (id : BitVec 16) :
    t.Owns other id ↔
      if other = tasklet then t.held tasklet id = true ∨ place.Has id else s.Owns other id := by
  rw [State.Owns, moved, Function.update_apply]
  split_ifs with here
  · rw [here]
  · rw [held other here]
    rfl

/-- What is left to show of a step when its ownership is known. -/
theorem State.Sound.of_move (sound : s.Sound v atomicBit nbVmutexes)
    (held : ∀ other, other ≠ tasklet → t.held other = s.held other)
    (hardware : Owned (fun bit => ∃ id : BitVec 16, id.toNat < nbVmutexes ∧ atomicBit (v.r10 id) = bit) t.atomicBits
      fun other bit => (t.place other).Inside v atomicBit bit)
    (virtual : Owned (fun id : BitVec 16 => id.toNat < nbVmutexes) (v.bit t.wram) t.Owns)
    (current : place.Current v t.wram nbVmutexes)
    (others : ∀ other, other ≠ tasklet → (s.place other).Current v t.wram nbVmutexes)
    (here : ∀ id, t.held tasklet id = true → id.toNat < nbVmutexes ∧ ¬place.Has id) :
    t.Sound v atomicBit nbVmutexes := by
  refine ⟨hardware, virtual, fun other => ?_, fun other id holds => ?_, fun other id holds => ?_⟩
  · rw [moved, Function.update_apply]
    split_ifs with same
    · exact current
    · exact others other same
  · by_cases same : other = tasklet
    · rw [same] at holds
      exact (here id holds).1
    · rw [held other same] at holds
      exact sound.known other id holds
  · rw [moved, Function.update_apply]
    split_ifs with same
    · rw [same] at holds
      exact (here id holds).2
    · rw [held other same] at holds
      exact sound.apart other id holds

/-- A step of a tasklet that changes neither the memory nor what the tasklet has. -/
theorem State.Sound.move (sound : s.Sound v atomicBit nbVmutexes) (wram : t.wram = s.wram)
    (atomicBits : t.atomicBits = s.atomicBits) (held : ∀ other, other ≠ tasklet → t.held other = s.held other)
    (inside : ∀ bit, place.Inside v atomicBit bit ↔ (s.place tasklet).Inside v atomicBit bit)
    (owns : ∀ id, (t.held tasklet id = true ∨ place.Has id) ↔ s.Owns tasklet id)
    (current : place.Current v s.wram nbVmutexes)
    (here : ∀ id, t.held tasklet id = true → id.toNat < nbVmutexes ∧ ¬place.Has id) :
    t.Sound v atomicBit nbVmutexes := by
  refine sound.of_move moved held ?_ ?_ (wram ▸ current) (fun other _ => wram ▸ sound.current other) here
  · rw [atomicBits]
    refine sound.hardware.congr (fun _ _ => rfl) fun other bit => ?_
    rw [inside_of_move moved]
    split_ifs with same
    · rw [same, inside]
    · rfl
  · rw [wram]
    refine sound.virtual.congr (fun _ _ => rfl) fun other id => ?_
    rw [owns_of_move moved held]
    split_ifs with same
    · rw [same, owns]
    · rfl

end Moves

/-- A step that changes what the tasklet holds. -/
theorem State.Sound.move_setHeld (sound : s.Sound v atomicBit nbVmutexes) (id : BitVec 16) (value : Bool)
    (inside : ∀ bit, place.Inside v atomicBit bit ↔ (s.place tasklet).Inside v atomicBit bit)
    (owns : ∀ key, ((if key = id then value else s.held tasklet key) = true ∨ place.Has key) ↔ s.Owns tasklet key)
    (current : place.Current v s.wram nbVmutexes)
    (here : ∀ key, (if key = id then value else s.held tasklet key) = true →
      key.toNat < nbVmutexes ∧ ¬place.Has key) :
    ((s.setHeld tasklet id value).move tasklet place).Sound v atomicBit nbVmutexes := by
  have moved : ((s.setHeld tasklet id value).move tasklet place).place = Function.update s.place tasklet place :=
    rfl
  have held (key : BitVec 16) : ((s.setHeld tasklet id value).move tasklet place).held tasklet key =
      if key = id then value else s.held tasklet key := held_setHeld id value key
  refine sound.move moved rfl rfl (fun other differ => Function.update_of_ne differ ..) inside
    (fun key => ?_) current
    fun key => ?_
  · rw [held]
    exact owns key
  · rw [held]
    exact here key

section Instructions
variable {function : Function} {id : BitVec 16} {r11 r12 : BitVec 32}

omit [DecidableEq τ] in
/-- The tasklet at a place has what the place says and what it holds. -/
theorem owns_here (here : s.place tasklet = place) (key : BitVec 16) :
    s.Owns tasklet key ↔ s.held tasklet key = true ∨ place.Has key := by
  rw [State.Owns, here]

omit [DecidableEq τ] in
/-- A tasklet inside the hardware mutex of a byte is the only one that has loaded the byte. -/
theorem State.Sound.others (sound : s.Sound v atomicBit nbVmutexes)
    (inside : (s.place tasklet).Inside v atomicBit (atomicBit (v.r10 id))) (byte : BitVec 8) {other : τ}
    (differ : other ≠ tasklet) : (s.place other).Current v (Function.update s.wram (v.r8 id) byte) nbVmutexes := by
  have apart (key : BitVec 16) (there : (s.place other).Inside v atomicBit (atomicBit (v.r10 key))) :
      v.r8 key ≠ v.r8 id := by
    intro same
    rw [r10_of_r8 same] at there
    exact differ (sound.hardware.alone _ other tasklet there inside)
  have current := sound.current other
  cases place : s.place other with
  | update function key r11 =>
    rw [place] at current apart
    rw [Place.Current, Function.update_of_ne (apart key rfl)]
    exact current
  | sb function key r11 r12 =>
    rw [place] at current apart
    rw [Place.Current, Function.update_of_ne (apart key rfl)]
    exact current
  | outside | acquire | lbu | release | jeq =>
    rw [place] at current
    exact current

/-- What the tasklet has does not change. -/
theorem State.Sound.same_owners (sound : s.Sound v atomicBit nbVmutexes)
    (moved : t.place = Function.update s.place tasklet place) (held : t.held = s.held)
    (bits : ∀ key : BitVec 16, key.toNat < nbVmutexes → v.bit t.wram key = v.bit s.wram key)
    (has : ∀ key, place.Has key ↔ (s.place tasklet).Has key) :
    Owned (fun id : BitVec 16 => id.toNat < nbVmutexes) (v.bit t.wram) t.Owns := by
  refine sound.virtual.congr bits fun other key => ?_
  rw [owns_of_move moved fun other _ => congrFun held other, held, has]
  split_ifs with same
  · rw [same]
    rfl
  · rfl

variable [DecidableEq β]

theorem State.Sound.acquire (sound : s.Sound v atomicBit nbVmutexes) (here : s.place tasklet = .acquire function id)
    (free : s.atomicBits (atomicBit (v.r10 id)) = false)
    (moved : t.place = Function.update s.place tasklet (.lbu function id)) (held : t.held = s.held)
    (wram : t.wram = s.wram) (taken : t.atomicBits = Function.update s.atomicBits (atomicBit (v.r10 id)) true) :
    t.Sound v atomicBit nbVmutexes := by
  have small := sound.current tasklet
  rw [here] at small
  have has (key : BitVec 16) : (Place.lbu function id).Has key ↔ (s.place tasklet).Has key := by
    rw [here]
    cases function <;> rfl
  refine sound.of_move moved (fun other _ => congrFun held other) ?_
    (sound.same_owners moved held (fun _ _ => wram ▸ rfl) has) small (fun other _ => wram ▸ sound.current other)
    fun key holds => ?_
  · rw [taken]
    refine sound.hardware.take tasklet ⟨id, small, rfl⟩ free (Function.update_self ..)
      (fun other _ differ => Function.update_of_ne differ ..) fun other bit => ?_
    rw [inside_of_move moved]
    split_ifs with same
    · rw [same, here]
      exact ⟨fun inside => Or.inr ⟨rfl,
        inside.symm⟩, fun inside => inside.elim False.elim fun inside => inside.2.symm⟩
    · simp [same]
  · rw [held] at holds
    rw [has]
    exact ⟨sound.known tasklet key holds, sound.apart tasklet key holds⟩

theorem State.Sound.release (sound : s.Sound v atomicBit nbVmutexes)
    (here : s.place tasklet = .release function id r11 r12)
    (moved : t.place = Function.update s.place tasklet (.released function id r11 r12)) (held : t.held = s.held)
    (wram : t.wram = s.wram) (left : t.atomicBits = Function.update s.atomicBits (atomicBit (v.r10 id)) false) :
    t.Sound v atomicBit nbVmutexes := by
  have current := sound.current tasklet
  rw [here] at current
  have has (key : BitVec 16) : (Place.released function id r11 r12).Has key ↔ (s.place tasklet).Has key := by
    rw [here]
    cases function <;> rfl
  have outside (bit : β) : ¬(Place.released function id r11 r12).Inside v atomicBit bit := by
    cases function <;> exact False.elim
  refine sound.of_move moved (fun other _ => congrFun held other) ?_
    (sound.same_owners moved held (fun _ _ => wram ▸ rfl) has) ?_ (fun other _ => wram ▸ sound.current other)
    fun key holds => ?_
  · rw [left]
    refine sound.hardware.drop tasklet (atomicBit (v.r10 id)) (by rw [here]; rfl) (Function.update_self ..)
      (fun other _ differ => Function.update_of_ne differ ..) fun other bit => ?_
    rw [inside_of_move moved]
    split_ifs with same
    · rw [same, here]
      exact iff_of_false (outside bit) fun inside => inside.2 ⟨rfl, inside.1.symm⟩
    · simp [same]
  · cases function with
    | vmutexLock => exact current
    | vmutexUnlock => trivial
  · rw [held] at holds
    rw [has]
    exact ⟨sound.known tasklet key holds, sound.apart tasklet key holds⟩

omit [DecidableEq β] in
/-- The store of a lock takes the virtual mutex if it was free, the one of an unlock lets it go. -/
theorem State.Sound.sb (sound : s.Sound v atomicBit nbVmutexes) (here : s.place tasklet = .sb function id r11 r12)
    (moved : t.place = Function.update s.place tasklet (.release function id r11 r12)) (held : t.held = s.held)
    (stored : t.wram = Function.update s.wram (v.r8 id) (r12.setWidth 8))
    (atomicBits : t.atomicBits = s.atomicBits) :
    t.Sound v atomicBit nbVmutexes := by
  have current := sound.current tasklet
  rw [here] at current
  obtain ⟨small, loaded, updated⟩ := current
  have inside : (s.place tasklet).Inside v atomicBit (atomicBit (v.r10 id)) := by
    rw [here]
    rfl
  have bits (key : BitVec 16) : v.bit t.wram key = if key = id then decide (function = .vmutexLock)
      else v.bit s.wram key := by
    rw [stored, updated, loaded, bit_r12]
  have clear : r11.getLsbD (id.toNat % 8) = v.bit s.wram id := by
    rw [loaded, BitVec.getLsbD_setWidth, decide_eq_true (by omega : id.toNat % 8 < 32), Bool.true_and, Vmutex.bit]
  have owns := owns_of_move moved fun other _ => congrFun held other
  have notHeld (key : BitVec 16) (holds : s.held tasklet key = true) : ¬(s.place tasklet).Has key :=
    sound.apart tasklet key holds
  rw [here] at notHeld
  refine sound.of_move moved (fun other _ => congrFun held other) ?_ ?_ ⟨small, updated⟩
    (fun other differ => stored ▸ sound.others inside _ differ) fun key holds => ?_
  · rw [atomicBits]
    refine sound.hardware.congr (fun _ _ => rfl) fun other bit => ?_
    rw [inside_of_move moved]
    split_ifs with same
    · rw [same, here]
      rfl
    · rfl
  · cases function with
    | vmutexLock =>
      by_cases free : v.bit s.wram id = false
      · refine sound.virtual.take tasklet small free ?_ (fun key _ differ => ?_) fun other key => ?_
        · rw [bits, if_pos rfl, decide_eq_true rfl]
        · rw [bits, if_neg differ]
        · rw [owns, held]
          split_ifs with same
          · rw [same, owns_here here]
            change _ ∨ id = key ∧ r11.getLsbD (id.toNat % 8) = false ↔ (_ ∨ False) ∨ tasklet = tasklet ∧ key = id
            rw [clear, and_iff_left free, or_false, and_iff_right rfl, @eq_comm _ id]
          · simp [same]
      · refine sound.virtual.congr (fun key _ => ?_) fun other key => ?_
        · rw [bits]
          split_ifs with same
          · rw [same, eq_true_of_ne_false free]
            rfl
          · rfl
        · rw [owns, held]
          split_ifs with same
          · rw [same, owns_here here]
            change _ ∨ id = key ∧ r11.getLsbD (id.toNat % 8) = false ↔ _ ∨ False
            rw [clear, iff_false_intro free, and_false]
          · rfl
    | vmutexUnlock =>
      refine sound.virtual.drop tasklet id ((owns_here here id).mpr (Or.inr rfl)) ?_
        (fun key _ differ => ?_) fun other key => ?_
      · rw [bits, if_pos rfl]
        rfl
      · rw [bits, if_neg differ]
      · rw [owns, held]
        split_ifs with same
        · rw [same, owns_here here]
          constructor
          · intro before
            rcases before with holds | has
            · exact ⟨Or.inl holds, fun at_ => notHeld key holds at_.2.symm⟩
            · exact has.elim
          · rintro ⟨holds | has, elsewhere⟩
            · exact Or.inl holds
            · exact absurd ⟨rfl, has.symm⟩ elsewhere
        · simp [same]
  · rw [held] at holds
    refine ⟨sound.known tasklet key holds, ?_⟩
    cases function with
    | vmutexLock =>
      rintro ⟨rfl, free⟩
      rw [clear] at free
      exact sound.virtual.nobody small free tasklet (Or.inl holds)
    | vmutexUnlock => exact False.elim

theorem State.Sound.step {action : Option τ} (sound : s.Sound v atomicBit nbVmutexes)
    (step : Step v atomicBit nbVmutexes s action t) : t.Sound v atomicBit nbVmutexes := by
  -- A step that moves a tasklet to a place where it has the same as before.
  have moves {tasklet : τ} {place before : Place} (here : s.place tasklet = before)
      (inside : ∀ bit, place.Inside v atomicBit bit ↔ before.Inside v atomicBit bit)
      (has : ∀ id, place.Has id ↔ before.Has id) (current : place.Current v s.wram nbVmutexes) :
      (s.move tasklet place).Sound v atomicBit nbVmutexes := by
    subst here
    refine sound.move rfl rfl rfl (fun _ _ => rfl) inside
      (fun id => or_congr_right (has id)) current fun id holds => ?_
    rw [has]
    exact ⟨sound.known tasklet id holds, sound.apart tasklet id holds⟩
  cases step with
  | lock id small here => exact moves here (fun _ => Iff.rfl) (fun _ => Iff.rfl) small
  | @unlock tasklet id here holds =>
    refine sound.move_setHeld id false (fun bit => ?_) (fun key => ?_) (sound.known tasklet id holds) fun key => ?_
    · rw [here]
      rfl
    · rw [owns_here here]
      change _ ∨ id = key ↔ _ ∨ False
      by_cases same : key = id
      · simp [same, holds]
      · simp [same, Ne.symm same]
    · split_ifs with same
      · exact fun never => by cases never
      · exact fun holds' => ⟨sound.known tasklet key holds', fun at_ => same at_.symm⟩
  | acquire here free => exact sound.acquire here free rfl rfl rfl rfl
  | @lbu tasklet function id here =>
    have small := sound.current tasklet
    rw [here] at small
    exact moves here (fun _ => Iff.rfl) (fun _ => by cases function <;> rfl) ⟨small, rfl⟩
  | @update tasklet function id r11 here =>
    have current := sound.current tasklet
    rw [here] at current
    exact moves here (fun _ => Iff.rfl) (fun _ => by cases function <;> rfl) ⟨current.1, current.2, rfl⟩
  | sb here => exact sound.sb here rfl rfl rfl rfl
  | release here => exact sound.release here rfl rfl rfl rfl
  | @again tasklet id r11 r12 here same =>
    have current := sound.current tasklet
    rw [here] at current
    refine moves here (fun _ => Iff.rfl) (fun key => iff_of_false not_false ?_) current.1
    rintro ⟨-, free⟩
    rw [eq_r12_lock_iff.mp (same.trans current.2)] at free
    cases free
  | @locked tasklet id r11 r12 here differ =>
    have current := sound.current tasklet
    rw [here] at current
    have free : r11.getLsbD (id.toNat % 8) = false :=
      eq_false_of_ne_true fun set => differ ((eq_r12_lock_iff.mpr set).trans current.2.symm)
    refine sound.move_setHeld id true (fun bit => ?_) (fun key => ?_) trivial fun key => ?_
    · rw [here]
      rfl
    · rw [owns_here here]
      change _ ∨ False ↔ _ ∨ id = key ∧ r11.getLsbD (id.toNat % 8) = false
      rw [and_iff_left free]
      by_cases same : key = id
      · simp [same]
      · simp [same, Ne.symm same]
    · split_ifs with same
      · exact fun _ => ⟨same ▸ current.1, not_false⟩
      · exact fun holds => ⟨sound.known tasklet key holds, not_false⟩
  | other wram atomicBits bytes bits =>
    refine ⟨sound.hardware.congr (fun bit ⟨id, small, same⟩ => same ▸ bits id small) fun _ _ => Iff.rfl,
      sound.virtual.congr (fun id small => ?_) fun _ _ => Iff.rfl, fun tasklet => ?_, sound.known, sound.apart⟩
    · change v.bit wram id = v.bit s.wram id
      rw [Vmutex.bit, bytes id small, Vmutex.bit]
    · have current := sound.current tasklet
      revert current
      change (s.place tasklet).Current v s.wram nbVmutexes → (s.place tasklet).Current v wram nbVmutexes
      cases s.place tasklet with
      | update function id r11 =>
        rintro ⟨small, loaded⟩
        exact ⟨small, (bytes id small).symm ▸ loaded⟩
      | sb function id r11 r12 =>
        rintro ⟨small, loaded, updated⟩
        exact ⟨small, (bytes id small).symm ▸ loaded, updated⟩
      | outside | acquire | lbu | release | jeq => exact fun current => current

theorem sound_of_reachable {start : State τ β} (init : start.Init v atomicBit nbVmutexes)
    (reach : Reachable (Step v atomicBit nbVmutexes) start s) : s.Sound v atomicBit nbVmutexes :=
  reach.invariant init.sound fun _ _ _ sound step => sound.step step

/-- The bit of a virtual mutex says whether some tasklet has it, whatever the
other bits of its byte are used for, and no two tasklets hold it. -/
theorem vmutex_excludes {start : State τ β} (init : start.Init v atomicBit nbVmutexes)
    (reach : Reachable (Step v atomicBit nbVmutexes) start s) (id : BitVec 16) (small : id.toNat < nbVmutexes) :
    (v.bit s.wram id = true ↔ ∃ tasklet, s.Owns tasklet id) ∧
      ∀ tasklet other, s.held tasklet id = true → s.held other id = true → tasklet = other := by
  have sound := sound_of_reachable init reach
  exact ⟨sound.virtual.flag_iff id small,
    fun tasklet other held held' => sound.virtual.alone id tasklet other (Or.inl held) (Or.inl held')⟩

/-- Sixteen virtual mutexes with one hardware mutex. -/
def oneByte : Vmutex := ⟨0x1000#32, 0#32, 0#8⟩

def State.zeroed : State Nat (BitVec 32) := ⟨fun _ => 0#8, fun _ => false, fun _ => .outside, fun _ _ => false⟩

theorem State.zeroed_init (nbVmutexes : Nat) : State.zeroed.Init oneByte (fun address => address) nbVmutexes :=
  ⟨fun _ _ => rfl, fun _ _ => rfl, fun _ => rfl, fun _ _ => rfl⟩

/-- Tasklet 5 has locked the virtual mutex 3 and tasklet 6 begins to lock it too. -/
theorem exists_run_contended : ∃ s, Reachable (Step oneByte (fun address => address) 16) State.zeroed s ∧
    s.held 5 3#16 = true ∧ s.place 6 = .acquire .vmutexLock 3#16 ∧ s.atomicBits 0#32 = false := by
  have run : Run (Step oneByte (fun address => address) 16) State.zeroed [] State.zeroed := .start
  have run := run.next (a := some 5) (.lock 3#16 (by decide) rfl)
  have run := run.next (a := some 5) (.acquire rfl rfl)
  have run := run.next (a := some 5) (.lbu rfl)
  have run := run.next (a := some 5) (.update rfl)
  have run := run.next (a := some 5) (.sb rfl)
  have run := run.next (a := some 5) (.release rfl)
  have run := run.next (a := some 5) (.locked rfl (by decide))
  have run := run.next (a := some 6) (.lock 3#16 (by decide) rfl)
  exact ⟨_, ⟨_, run⟩, rfl, rfl, rfl⟩

theorem vmutex_excludes_contended : ∃ s, Reachable (Step oneByte (fun address => address) 16) State.zeroed s ∧
    s.held 5 3#16 = true ∧ oneByte.bit s.wram 3#16 = true := by
  obtain ⟨s, reach, held, _⟩ := exists_run_contended
  have excludes := vmutex_excludes (State.zeroed_init 16) reach 3#16 (by decide)
  exact ⟨s, reach, held, excludes.1.mpr ⟨5, Or.inl held⟩⟩

/-- The places of the tasklet in one turn of the loop of a lock, up to its test. -/
def State.tested (s : State τ β) (v : Vmutex) (tasklet : τ) (id : BitVec 16) : State τ β :=
  let r11 := (s.wram (v.r8 id)).setWidth 32
  { s.move tasklet (.jeq id r11 (Function.r12 .vmutexLock id r11)) with
    wram := Function.update s.wram (v.r8 id) ((Function.r12 .vmutexLock id r11).setWidth 8) }

/-- The instructions of a turn, from the test back to the acquire. -/
def turnPlaces (id : BitVec 16) (r11 : BitVec 32) : List Place :=
  let r12 := Function.r12 .vmutexLock id r11
  [.jeq id r11 r12, .release .vmutexLock id r11 r12, .sb .vmutexLock id r11 r12, .update .vmutexLock id r11,
    .lbu .vmutexLock id, .acquire .vmutexLock id]

/-- A tasklet that nobody disturbs comes to the test of its lock. -/
theorem exists_run_tested (here : s.place tasklet = .acquire .vmutexLock id)
    (free : s.atomicBits (atomicBit (v.r10 id)) = false) :
    ∃ history, Run (Step v atomicBit nbVmutexes) s history (s.tested v tasklet id) ∧
      (∀ τ' ∈ history, τ'.action = some tasklet) ∧
      history.map (fun τ' => τ'.before.place tasklet) = (turnPlaces id ((s.wram (v.r8 id)).setWidth 32)).tail := by
  let r11 := (s.wram (v.r8 id)).setWidth 32
  let r12 := Function.r12 .vmutexLock id r11
  let taken := Function.update s.atomicBits (atomicBit (v.r10 id)) true
  let inCall (place : Place) (wram : BitVec 32 → BitVec 8) (atomicBits : β → Bool) : State τ β :=
    ⟨wram, atomicBits, Function.update s.place tasklet place, s.held⟩
  have at_ (place : Place) (wram : BitVec 32 → BitVec 8) (atomicBits : β → Bool) :
      (inCall place wram atomicBits).place tasklet = place := Function.update_self ..
  have moves (place next : Place) (wram : BitVec 32 → BitVec 8) (atomicBits : β → Bool) :
      (inCall place wram atomicBits).move tasklet next = inCall next wram atomicBits := by
    simp [inCall, State.move]
  have begun : Run (Step v atomicBit nbVmutexes) s [] s := .start
  have acquired := begun.next_eq (u := inCall (.lbu .vmutexLock id) s.wram taken) (.acquire here free) rfl
  have loaded := acquired.next_eq (u := inCall (.update .vmutexLock id r11) s.wram taken) (.lbu (at_ ..)) (moves ..)
  have updated :=
    loaded.next_eq (u := inCall (.sb .vmutexLock id r11 r12) s.wram taken) (.update (at_ ..)) (moves ..)
  have stored := updated.next_eq
    (u := inCall (.release .vmutexLock id r11 r12) (Function.update s.wram (v.r8 id) (r12.setWidth 8)) taken)
    (.sb (at_ ..)) (by rw [moves])
  have released := stored.next_eq (u := s.tested v tasklet id) (.release (at_ ..)) (by
    rw [moves]
    simp only [inCall, taken, State.tested, State.move, Place.released, Function.update_idem]
    rw [← free, Function.update_eq_self])
  refine ⟨_, released, fun τ' member => ?_, ?_⟩
  · simp only [List.mem_cons, List.not_mem_nil, or_false] at member
    rcases member with rfl | rfl | rfl | rfl | rfl <;> rfl
  · simp only [List.map_cons, List.map_nil, at_, here]
    rfl

omit [DecidableEq β] in
theorem bit_tested (tasklet : τ) (id key : BitVec 16) :
    v.bit (s.tested v tasklet id).wram key = if key = id then true else v.bit s.wram key := by
  change v.bit (Function.update s.wram (v.r8 id) _) key = _
  rw [bit_r12]
  rfl

/-- A turn of the loop of a lock is a test and set: undisturbed, it ends with
the tasklet holding the virtual mutex if nobody had it, and else where it
began, with nothing changed for any tasklet. -/
theorem vmutexLock_turn {start : State τ β} (init : start.Init v atomicBit nbVmutexes)
    (reach : Reachable (Step v atomicBit nbVmutexes) start s) (here : s.place tasklet = .acquire .vmutexLock id)
    (free : s.atomicBits (atomicBit (v.r10 id)) = false) :
    ∃ history t, Run (Step v atomicBit nbVmutexes) s history t ∧ (∀ τ' ∈ history, τ'.action = some tasklet) ∧
      history.map (fun τ' => τ'.before.place tasklet) = turnPlaces id ((s.wram (v.r8 id)).setWidth 32) ∧
      ((¬∃ other, s.Owns other id) ∧ t.place tasklet = .outside ∨
        (∃ other, s.Owns other id) ∧ t.place tasklet = .acquire .vmutexLock id) ∧
      (∀ other key, t.Owns other key ↔ s.Owns other key ∨ t.place tasklet = .outside ∧ other = tasklet ∧ key = id) ∧
      ∀ key, v.bit t.wram key = if key = id then true else v.bit s.wram key := by
  have sound := sound_of_reachable init reach
  have small := sound.current tasklet
  rw [here] at small
  have bit := sound.virtual.flag_iff id small
  obtain ⟨history, run, own, places⟩ := @exists_run_tested _ _ _ v atomicBit nbVmutexes s tasklet id _ here free
  have at_ : (s.tested v tasklet id).place tasklet = .jeq id ((s.wram (v.r8 id)).setWidth 32)
      (Function.r12 .vmutexLock id ((s.wram (v.r8 id)).setWidth 32)) := Function.update_self ..
  have clear : ((s.wram (v.r8 id)).setWidth 32 : BitVec 32).getLsbD (id.toNat % 8) = v.bit s.wram id := by
    rw [BitVec.getLsbD_setWidth, decide_eq_true (by omega : id.toNat % 8 < 32), Bool.true_and, Vmutex.bit]
  have nothing (key : BitVec 16) : s.Owns tasklet key ↔ s.held tasklet key = true :=
    (owns_here here key).trans (or_iff_left not_false)
  by_cases set : v.bit s.wram id = true
  · have again := run.next (.again at_ (eq_r12_lock_iff.mpr (clear.trans set)))
    have moved : ((s.tested v tasklet id).move tasklet (.acquire .vmutexLock id)).place =
        Function.update s.place tasklet (.acquire .vmutexLock id) := Function.update_idem ..
    refine ⟨_, _, again, List.forall_mem_cons.mpr ⟨rfl, own⟩, ?_, .inr ⟨bit.mp set, ?_⟩, fun other key => ?_,
      bit_tested tasklet id⟩
    · rw [List.map_cons, at_, places]
      rfl
    · rw [moved, Function.update_self]
    · rw [owns_of_move moved fun _ _ => rfl, moved, Function.update_self]
      split_ifs with same
      · rw [same, nothing]
        change s.held tasklet key = true ∨ False ↔ _
        simp
      · simp
  · have locked := run.next (.locked at_ fun same => set (clear.symm.trans (eq_r12_lock_iff.mp same)))
    have moved : (((s.tested v tasklet id).setHeld tasklet id true).move tasklet .outside).place =
        Function.update s.place tasklet .outside := Function.update_idem ..
    refine ⟨_, _, locked, List.forall_mem_cons.mpr ⟨rfl, own⟩, ?_, .inl ⟨bit.not.mp set, ?_⟩, fun other key => ?_,
      bit_tested tasklet id⟩
    · rw [List.map_cons, at_, places]
      rfl
    · rw [moved, Function.update_self]
    · rw [owns_of_move moved fun other differ => Function.update_of_ne differ .., moved, Function.update_self]
      split_ifs with same
      · rw [same, nothing]
        change (((s.tested v tasklet id).setHeld tasklet id true).held tasklet key = true ∨ False) ↔ _
        rw [held_setHeld]
        change (if key = id then true else s.held tasklet key) = true ∨ False ↔ _
        by_cases here' : key = id <;> simp [here']
      · simp [same]

/-- The turn of tasklet 6 does not get the virtual mutex. -/
theorem vmutexLock_turn_contended :
    ∃ s t history, Reachable (Step oneByte (fun address => address) 16) State.zeroed s ∧
    Run (Step oneByte (fun address => address) 16) s history t ∧ history.length = 6 ∧
      s.place 6 = .acquire .vmutexLock 3#16 ∧ t.place 6 = .acquire .vmutexLock 3#16 := by
  obtain ⟨s, reach, held, here, free⟩ := exists_run_contended
  obtain ⟨history, t, run, _, places, ends, _⟩ := vmutexLock_turn (State.zeroed_init 16) reach here free
  rcases ends with ⟨nobody, _⟩ | ⟨_, again⟩
  · exact absurd ⟨5, Or.inl held⟩ nobody
  · refine ⟨s, t, history, reach, run, ?_, here, again⟩
    rw [← List.length_map, places]
    rfl

end Instructions

end Owners

end Upmem.VMutex
