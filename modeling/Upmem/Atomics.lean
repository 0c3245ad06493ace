import Mathlib.Data.List.GetD
import Upmem.Lib.Codec
import Upmem.Lib.LockedCalls

namespace Upmem.Atomics
open Codec LockedCalls Transitions

/-- The types of `FOR_ALL_TYPES`. -/
inductive NType
  | char | short | int | longLong
  deriving DecidableEq

def NType.size : NType → Nat
  | .char => 1
  | .short => 2
  | .int => 4
  | .longLong => 8

abbrev NType.Value (nType : NType) := BitVec (8 * nType.size)

/-- The functions of `__SYNC_FETCH_AND_DO_N`. -/
inductive Fct
  | add | sub | and | or | xor | nand | max | umax | min | umin
  deriving DecidableEq

/-- `DO_ADD` and so on. -/
def Fct.apply {w : Nat} : Fct → BitVec w → BitVec w → BitVec w
  | .add, a, b => a + b
  | .sub, a, b => a - b
  | .and, a, b => a &&& b
  | .or, a, b => a ||| b
  | .xor, a, b => a ^^^ b
  | .nand, a, b => ~~~(a &&& b)
  | .max, a, b => if b.slt a then a else b
  | .umax, a, b => if b.ult a then a else b
  | .min, a, b => if b.slt a then a else b
  | .umin, a, b => if b.ult a then a else b

/-- What the name of a function says. -/
def Fct.named {w : Nat} : Fct → BitVec w → BitVec w → BitVec w
  | .add, a, b => a + b
  | .sub, a, b => a - b
  | .and, a, b => a &&& b
  | .or, a, b => a ||| b
  | .xor, a, b => a ^^^ b
  | .nand, a, b => ~~~(a &&& b)
  | .max, a, b => if a.toInt ≤ b.toInt then b else a
  | .umax, a, b => if a.toNat ≤ b.toNat then b else a
  | .min, a, b => if a.toInt ≤ b.toInt then a else b
  | .umin, a, b => if a.toNat ≤ b.toNat then a else b

inductive Operation (w : Nat)
  | valCompareAndSwap (expected desired : BitVec w)
  | lockTestAndSet (val : BitVec w)
  | fetchAnd (fct : Fct) (val : BitVec w)

/-- What an operation stores in its cell, if it does, with the functions of `apply`. -/
def Operation.stores {w : Nat} (apply : Fct → BitVec w → BitVec w → BitVec w) (load : BitVec w) :
    Operation w → Option (BitVec w)
  | .valCompareAndSwap expected desired => if load = expected then some desired else none
  | .lockTestAndSet val => some val
  | .fetchAnd fct val => some (apply fct load val)

/-- A call of one of the functions, with the address of its cell. -/
structure SyncCall where
  nType : NType
  ptr : Nat
  operation : Operation (8 * nType.size)

abbrev Bytes := Nat → BitVec 8

/-- The value of the cell of `size` bytes at an address. -/
def loadCell (size : Nat) (memory : Bytes) (ptr : Nat) : BitVec (8 * size) :=
  (word size).decode ((List.range size).map fun k => memory (ptr + k))

def storeCell (size : Nat) (memory : Bytes) (ptr : Nat) (value : BitVec (8 * size)) : Bytes :=
  fun a => if ptr ≤ a ∧ a < ptr + size then ((word size).encode value).getD (a - ptr) 0#8 else memory a

def storeIfAny (size : Nat) (memory : Bytes) (ptr : Nat) : Option (BitVec (8 * size)) → Bytes
  | some value => storeCell size memory ptr value
  | none => memory

/-- The functions between `PROLOGUE` and `EPILOGUE`. -/
def syncCalls : Calls Bytes SyncCall fun call => call.nType.Value where
  load call memory := loadCell call.nType.size memory call.ptr
  store call load memory := storeIfAny call.nType.size memory call.ptr (call.operation.stores Fct.apply load)

/-- The effect that the name of a call says. -/
def SyncCall.effect (call : SyncCall) (memory : Bytes) : Bytes :=
  storeIfAny call.nType.size memory call.ptr
    (call.operation.stores Fct.named (loadCell call.nType.size memory call.ptr))

/-- A minimum that does not find its operand in the cell. -/
def SyncCall.FindsOther (call : SyncCall) (load : call.nType.Value) : Prop :=
  ∃ fct val, (fct = .min ∨ fct = .umin) ∧ call.operation = .fetchAnd fct val ∧ load ≠ val

variable {τ : Type} [DecidableEq τ]

/-- The condition: a minimum that is stored is one of a cell that held the operand. -/
def FindsOperand (τ' : Transition (Shared Bytes τ fun call : SyncCall => call.nType.Value) (Action τ SyncCall)) :
    Prop :=
  ∀ thread, τ'.action = .store thread → ∀ call load, τ'.before.place thread = .loaded call load →
    ¬call.FindsOther load

section Cells
variable {size : Nat} {memory : Bytes} {ptr : Nat}

theorem loadCell_storeCell (value : BitVec (8 * size)) :
    loadCell size (storeCell size memory ptr value) ptr = value := by
  have length : ((word size).encode value).length = size := (word size).length_encode value
  have bytes : ((List.range size).map fun k => storeCell size memory ptr value (ptr + k)) =
      (word size).encode value := by
    refine List.ext_getElem (by rw [List.length_map, List.length_range, length]) fun k inside _ => ?_
    rw [List.length_map, List.length_range] at inside
    rw [List.getElem_map, List.getElem_range, storeCell, if_pos ⟨by omega, by omega⟩, Nat.add_sub_cancel_left,
      List.getD_eq_getElem _ _ (by omega)]
  rw [loadCell, bytes]
  exact (word size).decode_encode value

theorem storeCell_injective {value value' : BitVec (8 * size)}
    (same : storeCell size memory ptr value = storeCell size memory ptr value') : value = value' := by
  rw [← @loadCell_storeCell size memory ptr value, same, loadCell_storeCell]

end Cells

section Functions
variable {w : Nat}

theorem Fct.apply_eq_named {fct : Fct} (a b : BitVec w) (other : fct ≠ .min ∧ fct ≠ .umin) :
    fct.apply a b = fct.named a b := by
  cases fct with
  | max =>
    rw [Fct.apply, Fct.named, BitVec.slt]
    by_cases below : a.toInt ≤ b.toInt
    · rw [if_pos below, if_neg (by simpa using below)]
    · rw [if_neg below, if_pos (by simpa using below)]
  | umax =>
    rw [Fct.apply, Fct.named, BitVec.ult]
    by_cases below : a.toNat ≤ b.toNat
    · rw [if_pos below, if_neg (by simpa using below)]
    · rw [if_neg below, if_pos (by simpa using below)]
  | min => exact absurd rfl other.1
  | umin => exact absurd rfl other.2
  | _ => rfl

/-- The minima are the maxima. -/
theorem Fct.min_eq_named_iff {fct : Fct} (a b : BitVec w) (minimum : fct = .min ∨ fct = .umin) :
    fct.apply a b = fct.named a b ↔ a = b := by
  rcases minimum with rfl | rfl
  · rw [Fct.apply, Fct.named, BitVec.slt]
    by_cases below : a.toInt ≤ b.toInt
    · rw [if_pos below, if_neg (by simpa using below), eq_comm]
    · have ne : a ≠ b := fun same => below (same ▸ le_rfl)
      rw [if_neg below, if_pos (by simpa using below)]
  · rw [Fct.apply, Fct.named, BitVec.ult]
    by_cases below : a.toNat ≤ b.toNat
    · rw [if_pos below, if_neg (by simpa using below), eq_comm]
    · rw [if_neg below, if_pos (by simpa using below)]

/-- A call stores what its name says, but for a minimum that does not find its operand. -/
theorem store_eq_effect_iff (call : SyncCall) (memory : Bytes) :
    syncCalls.store call (syncCalls.load call memory) memory = call.effect memory ↔
      ¬call.FindsOther (syncCalls.load call memory) := by
  rw [SyncCall.effect]
  simp only [syncCalls]
  cases operation : call.operation with
  | valCompareAndSwap expected desired => simp [SyncCall.FindsOther, Operation.stores, operation]
  | lockTestAndSet val => simp [SyncCall.FindsOther, Operation.stores, operation]
  | fetchAnd fct val =>
    simp only [Operation.stores, storeIfAny]
    by_cases minimum : fct = .min ∨ fct = .umin
    · have values := Fct.min_eq_named_iff (loadCell call.nType.size memory call.ptr) val minimum
      constructor
      · rintro same ⟨fct', val', _, given, other⟩
        rw [operation] at given
        cases given
        exact other (values.mp (storeCell_injective same))
      · intro finds
        by_cases found : loadCell call.nType.size memory call.ptr = val
        · rw [values.mpr found]
        · exact absurd ⟨fct, val, minimum, operation, found⟩ finds
    · rw [not_or] at minimum
      refine ⟨fun _ => ?_, fun _ => by rw [Fct.apply_eq_named _ _ minimum]⟩
      rintro ⟨fct', val', is, given, _⟩
      rw [operation] at given
      cases given
      exact is.elim minimum.1 minimum.2

end Functions

section Runs
variable {s start : Shared Bytes τ fun call : SyncCall => call.nType.Value}
  {history : List (Transition (Shared Bytes τ fun call : SyncCall => call.nType.Value) (Action τ SyncCall))}

omit [DecidableEq τ] in
theorem stores_iff {τ' : Transition (Shared Bytes τ fun call : SyncCall => call.nType.Value) (Action τ SyncCall)}
    (locked : τ'.before.Locked syncCalls) : Stores syncCalls SyncCall.effect τ' ↔ FindsOperand τ' := by
  refine forall₂_congr fun thread _ => forall₃_congr fun call value loaded => ?_
  rw [locked.loaded thread call value loaded]
  exact store_eq_effect_iff call τ'.before.memory

/-- In a run whose minima find their operands the calls are linearized, with the effects that their names say. -/
theorem syncCalls_linearize (quiet : start.Quiet) (run : Run (Step syncCalls) start history s)
    (finds : ∀ τ' ∈ history, FindsOperand τ') : Linearizes syncCalls SyncCall.effect start.memory s := by
  refine Run.linearizes quiet run fun τ' member => (stores_iff ?_).mpr (finds τ' member)
  obtain ⟨reach, _⟩ := run.transition_step member
  exact reach.invariant quiet.locked fun _ _ _ locked step => locked.step step

end Runs

section Example

/-- `char` cells that hold 5, and tasklets that are not in a call. -/
def fives : Shared Bytes Nat fun call : SyncCall => call.nType.Value where
  memory _ := 5#8
  owner := none
  place _ := .idle
  returned _ := []

theorem fives_quiet : fives.Quiet := ⟨rfl, fun _ => rfl, fun _ => rfl⟩

def charCall (fct : Fct) (val : BitVec 8) : SyncCall := ⟨.char, 0x100, .fetchAnd fct val⟩

/-- The call of a tasklet completes. -/
theorem charCall_run {s : Shared Bytes Nat fun call : SyncCall => call.nType.Value}
    {history : List (Transition (Shared Bytes Nat fun call : SyncCall => call.nType.Value) (Action Nat SyncCall))}
    (run : Run (Step syncCalls) fives history s) (finds : ∀ τ' ∈ history, FindsOperand τ') {tasklet : Nat}
    (idle : s.place tasklet = .idle) (free : s.owner = none) {call : SyncCall}
    (found : ¬call.FindsOther (syncCalls.load call s.memory)) :
    ∃ history', Run (Step syncCalls) fives history' (s.completed syncCalls tasklet call) ∧
      ∀ τ' ∈ history', FindsOperand τ' := by
  obtain ⟨steps, run', stores⟩ := Run.complete run call idle free
  refine ⟨steps ++ history, run', fun τ' member => ?_⟩
  rcases List.mem_append.mp member with new | old
  · intro thread isStore call' load loaded
    obtain ⟨_, there⟩ := stores τ' new thread isStore
    cases there.symm.trans loaded
    exact found
  · exact finds τ' old

/-- An addition of one tasklet, then a minimum of another one with the sum. -/
theorem syncCalls_linearize_addMin :
    let s := (fives.completed syncCalls 0 (charCall .add 3#8)).completed syncCalls 1 (charCall .min 8#8)
    s.returned 1 = [⟨charCall .min 8#8, 8#8⟩] ∧ Linearizes syncCalls SyncCall.effect fives.memory s := by
  have addition : ¬(charCall .add 3#8).FindsOther (syncCalls.load (charCall .add 3#8) fives.memory) := by
    rintro ⟨fct, val, rfl | rfl, given, _⟩ <;> cases given
  have minimum : ¬(charCall .min 8#8).FindsOther
      (syncCalls.load (charCall .min 8#8) (fives.completed syncCalls 0 (charCall .add 3#8)).memory) := by
    rintro ⟨fct, val, _, given, other⟩
    cases given
    exact other rfl
  obtain ⟨_, run, finds⟩ := @charCall_run _ _ .start (fun _ member => nomatch member) 0 rfl rfl _ addition
  obtain ⟨_, run, finds⟩ := @charCall_run _ _ run finds 1 rfl rfl _ minimum
  exact ⟨rfl, syncCalls_linearize fives_quiet run finds⟩

/-- A minimum with 3 leaves the 5 of its cell. -/
theorem min_not_linearizes :
    ∃ history, Run (Step syncCalls) fives history (fives.completed syncCalls 0 (charCall .min 3#8)) ∧
    ¬Linearizes syncCalls SyncCall.effect fives.memory (fives.completed syncCalls 0 (charCall .min 3#8)) := by
  obtain ⟨steps, run, _⟩ := Run.complete (.start : Run (Step syncCalls) fives [] fives) (charCall .min 3#8)
    (rfl : fives.place 0 = .idle) rfl
  refine ⟨_, run, ?_⟩
  rintro ⟨order, threads, explains⟩
  -- The order is that of the only call.
  obtain ⟨value, only⟩ : ∃ value, order = [(0, ⟨charCall .min 3#8, value⟩)] := by
    have others : ∀ entry ∈ order, entry.1 = 0 := by
      intro entry member
      by_contra other
      have nothing := threads entry.1
      have returned : (fives.completed syncCalls 0 (charCall .min 3#8)).taken entry.1 = [] := by
        simp [Shared.taken, Shared.completed, fives, other]
      rw [returned, List.map_eq_nil_iff, List.filter_eq_nil_iff] at nothing
      exact nothing entry member (by simp)
    have first := threads 0
    have taken : (fives.completed syncCalls 0 (charCall .min 3#8)).taken 0 = [⟨charCall .min 3#8, 5#8⟩] := rfl
    rw [List.filter_eq_self.mpr fun entry member => by simpa using others entry member, taken] at first
    obtain ⟨⟨tasklet, call⟩, rfl, rfl⟩ := List.map_eq_singleton_iff.mp first
    obtain rfl : tasklet = 0 := others _ List.mem_cons_self
    exact ⟨_, rfl⟩
  rw [only] at explains
  obtain ⟨-, last⟩ := explains
  have stored : (charCall .min 3#8).effect fives.memory 0x100 = 5#8 := congrFun last 0x100
  exact absurd stored (by decide)

end Example

end Upmem.Atomics
