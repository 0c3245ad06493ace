import Mathlib
import Upmem.Lib.CountFill
import Upmem.Rank

namespace Upmem.Profiler
open CountFill

def REG_R23 : BitVec 64 := 23#64
def REG_ID4 : BitVec 64 := 30#64

/-- `CALLri`. -/
def CALLri (rc off : BitVec 64) : BitVec 64 :=
  0x806300000000#64 ||| ((rc >>> 0) &&& 0x1f#64) <<< 39 ||| ((off >>> 0) &&& 0xf#64) <<< 20 |||
    ((off >>> 4) &&& 0xf#64) <<< 16 ||| ((off >>> 8) &&& 0x1#64) <<< 15 ||| ((off >>> 9) &&& 0x1#64) <<< 14 |||
    ((off >>> 10) &&& 0x1#64) <<< 13 ||| ((off >>> 11) &&& 0x1#64) <<< 12 ||| ((off >>> 12) &&& 0xfff#64) <<< 0

/-- `CALLrr`. -/
def CALLrr (rc ra : BitVec 64) : BitVec 64 :=
  0x800300000000#64 ||| ((rc >>> 0) &&& 0x1f#64) <<< 39 ||| ((ra >>> 0) &&& 0x1f#64) <<< 34

/-- `JUMPi`. -/
def JUMPi (off : BitVec 64) : BitVec 64 :=
  0x8c6300000000#64 ||| ((off >>> 0) &&& 0xf#64) <<< 20 ||| ((off >>> 4) &&& 0xf#64) <<< 16 |||
    ((off >>> 8) &&& 0x1#64) <<< 15 ||| ((off >>> 9) &&& 0x1#64) <<< 14 ||| ((off >>> 10) &&& 0x1#64) <<< 13 |||
    ((off >>> 11) &&& 0x1#64) <<< 12 ||| ((off >>> 12) &&& 0xfff#64) <<< 0 ||| ((off >>> 24) &&& 0x7#64) <<< 39 |||
    ((off >>> 27) &&& 0x1#64) <<< 44

/-- `JUMPr`. -/
def JUMPr (ra : BitVec 64) : BitVec 64 := 0x8c0300000000#64 ||| ((ra >>> 0) &&& 0x1f#64) <<< 34

def NOP : BitVec 64 := 0x7c6300000000#64

/-- `SHrii`. -/
def SHrii (ra off imm : BitVec 64) : BitVec 64 :=
  0x7c0342000000#64 ||| ((ra >>> 0) &&& 0x1f#64) <<< 34 ||| ((off >>> 0) &&& 0xf#64) <<< 20 |||
    ((off >>> 4) &&& 0x7#64) <<< 39 ||| ((off >>> 7) &&& 0x1#64) <<< 24 ||| ((off >>> 8) &&& 0x1#64) <<< 15 |||
    ((off >>> 9) &&& 0x1#64) <<< 14 ||| ((off >>> 10) &&& 0x1#64) <<< 13 ||| ((off >>> 11) &&& 0x1#64) <<< 12 |||
    ((imm >>> 0) &&& 0xf#64) <<< 16 ||| ((imm >>> 4) &&& 0xfff#64) <<< 0

/-- `enum dpu_profiling_type_e`. -/
inductive ProfilingType
  | nop | mcount | stats | samples | sections
  deriving DecidableEq

/-- An entry of `mcount_stats`. -/
structure McountStat where
  address : BitVec 16
  count : BitVec 64
  deriving DecidableEq

/-- The fields of `struct _dpu_profiling_context_t` for the patches and the statistics. A
cell that was never written is `none`, and `stray` records an access through a null
pointer, outside of a table or to such a cell. -/
structure ProfilingContext where
  enableProfiling : ProfilingType
  nrOfMcountStats : BitVec 16
  mcountStats : Option (Nat → Option (List (Option McountStat)))
  mcountAddress : BitVec 16
  retMcountAddress : BitVec 16
  threadProfilingAddress : BitVec 32
  stray : Bool

/-- The tests for `INSN_CALL_R23_MASK` and `INSN_CALL_R23_RXX_MASK`. -/
def isCallR23 (insn : BitVec 64) : Bool :=
  insn &&& CALLri REG_R23 0#64 = CALLri REG_R23 0#64 ∨ insn &&& CALLrr REG_R23 0#64 = CALLrr REG_R23 0#64

/-- `INSN_CALL_MCOUNT` for the address of the context. -/
def ProfilingContext.mcountEncoding (context : ProfilingContext) : BitVec 64 :=
  CALLri REG_R23 (context.mcountAddress.setWidth 64)

/-- `INSN_RET`, but not the one of `ret_mcount` itself. -/
def ProfilingContext.isReturn (context : ProfilingContext) (insnAddress : BitVec 16) (insn : BitVec 64) : Bool :=
  insn = JUMPr REG_R23 ∧ insnAddress.setWidth 32 ≠ context.retMcountAddress.setWidth 32 + 1#32

/-- The variables of the loop that patches. -/
structure PatchState where
  source : Nat → BitVec 64
  mcountIdx : Nat
  mcountStats : Nat → Option (List (Option McountStat))
  stray : Bool

/-- `source[insn] = ...`. -/
def PatchState.put (insn : Nat) (word : BitVec 64) (s : PatchState) : PatchState :=
  { s with source := Function.update s.source insn word }

/-- The next entry of each thread. -/
def PatchState.record (nrThreads : Nat) (address : BitVec 16) (s : PatchState) : PatchState :=
  { s with
    mcountIdx := s.mcountIdx + 1
    mcountStats := fun thId =>
      if thId < nrThreads then (s.mcountStats thId).map fun stats => stats.set s.mcountIdx (some ⟨address, 0#64⟩)
      else s.mcountStats thId
    stray := s.stray || (List.range nrThreads).any fun thId => ((s.mcountStats thId).getD []).length ≤ s.mcountIdx }

/-- A turn of the loop that patches. -/
def patchInstruction (context : ProfilingContext) (nrThreads : Nat) (address : BitVec 32) (s : PatchState)
    (insn : Nat) :
    PatchState :=
  let insnAddress : BitVec 16 := (address + BitVec.ofNat 32 insn).truncate 16
  if s.source insn = context.mcountEncoding then
    match context.enableProfiling with
    | .nop => s.put insn NOP
    | .stats =>
      (s.put insn (SHrii REG_ID4 (context.threadProfilingAddress.setWidth 64) (insnAddress.setWidth 64))).record
        nrThreads insnAddress
    | _ => s
  else if context.isReturn insnAddress (s.source insn) then
    if context.enableProfiling = .stats then s.put insn (JUMPi (context.retMcountAddress.setWidth 64)) else s
  else if isCallR23 (s.source insn) then s.record nrThreads (insnAddress + 1#16)
  else s

/-- How the allocations of a patch end: the one of the table, and those for the threads. -/
structure PatchAllocs where
  calloc : Bool
  realloc : Nat → Bool

/-- The tables for a first segment: those of an earlier load are freed, or the table of the threads is made. -/
def ProfilingContext.init (nrThreads : Nat) (allocs : PatchAllocs) (context : ProfilingContext) :
    Option ProfilingContext :=
  match context.mcountStats with
  | some mcountStats =>
    some { context with
      mcountStats := some fun thId => if thId < nrThreads then none else mcountStats thId
      nrOfMcountStats := 0#16 }
  | none => if allocs.calloc then some { context with mcountStats := some fun _ => none } else none

/-- The context before the calls of a segment are counted. -/
def ProfilingContext.prepare (nrThreads : Nat) (allocs : PatchAllocs) (init : Bool) (context : ProfilingContext) :
    Option ProfilingContext :=
  if init then context.init nrThreads allocs else some context

/-- The loop that counts. -/
def countCalls (source : Nat → BitVec 64) (nbOfInstructions : Nat) (nrOfMcountStats : BitVec 16) : BitVec 16 :=
  (List.range nbOfInstructions).foldl
    (fun nr insn => if isCallR23 (source insn) then nr + 1#16 else nr) nrOfMcountStats

/-- The reallocation of the tables of the threads. -/
def growStats (nrThreads : Nat) (allocs : PatchAllocs) (nr : Nat)
    (mcountStats : Nat → Option (List (Option McountStat))) :
    Option (Nat → Option (List (Option McountStat))) :=
  if (List.range nrThreads).all allocs.realloc then
    some fun thId => if thId < nrThreads then some (resize ((mcountStats thId).getD []) nr) else mcountStats thId
  else none

/-- The loop that patches, from the entry after the earlier ones. -/
def patchInstructions (context : ProfilingContext) (nrThreads : Nat) (address : BitVec 32)
    (nbOfInstructions initial : Nat)
    (source : Nat → BitVec 64) : DpuError × ProfilingContext × (Nat → BitVec 64) :=
  let s := (List.range nbOfInstructions).foldl (patchInstruction context nrThreads address)
    ⟨source, initial, context.mcountStats.getD fun _ => none, context.stray⟩
  (.ok, { context with mcountStats := context.mcountStats.map fun _ => s.mcountStats, stray := s.stray }, s.source)

/-- `dpu_patch_profiling_for_dpu` from the count of the calls on. -/
def patchSegment (nrThreads : Nat) (allocs : PatchAllocs) (context : ProfilingContext) (source : Nat → BitVec 64)
    (address : BitVec 32) (nbOfInstructions : Nat) : DpuError × ProfilingContext × (Nat → BitVec 64) :=
  let initial := context.nrOfMcountStats
  let context := { context with nrOfMcountStats := countCalls source nbOfInstructions initial }
  if context.nrOfMcountStats = 0#16 then (.ok, context, source)
  else if context.nrOfMcountStats ≠ initial then
    match context.mcountStats with
    | none =>
      patchInstructions { context with stray := true } nrThreads address nbOfInstructions initial.toNat source
    | some mcountStats =>
      match growStats nrThreads allocs context.nrOfMcountStats.toNat mcountStats with
      | none => (.system, { context with mcountStats := none }, source)
      | some grown =>
        patchInstructions
          { context with mcountStats := some grown } nrThreads address nbOfInstructions initial.toNat source
  else patchInstructions context nrThreads address nbOfInstructions initial.toNat source

/-- `dpu_patch_profiling_for_dpu` for the DPU of the context. -/
def dpuPatchProfilingForDpu (enabled : Bool) (nrThreads : Nat) (allocs : PatchAllocs) (context : ProfilingContext)
    (source : Nat → BitVec 64) (address size : BitVec 32) (init : Bool) :
    DpuError × ProfilingContext × (Nat → BitVec 64) :=
  if !enabled then (.dpuDisabled, context, source)
  else if context.enableProfiling = .mcount ∨ context.enableProfiling = .samples ∨
    context.enableProfiling = .sections then
    (.ok, context, source)
  else if context.mcountAddress = 0#16 ∨ context.retMcountAddress = 0#16 ∨
    context.threadProfilingAddress = 0#32 then
    (if context.enableProfiling = .stats then .system else .ok, context, source)
  else
    match context.prepare nrThreads allocs init with
    | none => (.system, context, source)
    | some context => patchSegment nrThreads allocs context source address (size.truncate 16).toNat

theorem or_and_cancel (x y : BitVec 64) : (x ||| y) &&& x = x := by
  refine BitVec.eq_of_getLsbD_eq fun i _ => ?_
  rw [BitVec.getLsbD_and, BitVec.getLsbD_or]
  cases x.getLsbD i <;> cases y.getLsbD i <;> rfl

/-- The calls of `mcount` are calls. -/
theorem mcount_isCall (context : ProfilingContext) : isCallR23 context.mcountEncoding = true := by
  have zero : CALLri REG_R23 0#64 = 0x8be300000000#64 := by decide
  have base : 0x806300000000#64 ||| ((REG_R23 >>> 0) &&& 0x1f#64) <<< 39 = 0x8be300000000#64 := by decide
  have masked : context.mcountEncoding &&& CALLri REG_R23 0#64 = CALLri REG_R23 0#64 := by
    rw [zero, ProfilingContext.mcountEncoding, CALLri, base]
    simp only [BitVec.or_assoc]
    exact or_and_cancel _ _
  exact decide_eq_true (.inl masked)

theorem return_not_call : isCallR23 (JUMPr REG_R23) = false := by decide

/-- The context has the method and the addresses for patches. -/
def ProfilingContext.Patches (context : ProfilingContext) : Prop :=
  (context.enableProfiling = .nop ∨ context.enableProfiling = .stats) ∧
    context.mcountAddress ≠ 0#16 ∧ context.retMcountAddress ≠ 0#16 ∧ context.threadProfilingAddress ≠ 0#32

instance (context : ProfilingContext) : Decidable context.Patches :=
  inferInstanceAs (Decidable (_ ∧ _))

/-- What the loop puts in the place of an instruction. -/
def ProfilingContext.patched (context : ProfilingContext) (insnAddress : BitVec 16) (insn : BitVec 64) :
    BitVec 64 :=
  if insn = context.mcountEncoding then
    match context.enableProfiling with
    | .nop => NOP
    | .stats => SHrii REG_ID4 (context.threadProfilingAddress.setWidth 64) (insnAddress.setWidth 64)
    | _ => insn
  else if context.isReturn insnAddress insn ∧ context.enableProfiling = .stats then
    JUMPi (context.retMcountAddress.setWidth 64)
  else insn

/-- The address by which an instruction is counted: its own for a call of `mcount`, the
one behind it for another call. -/
def ProfilingContext.site (context : ProfilingContext) (insnAddress : BitVec 16) (insn : BitVec 64) :
    Option (BitVec 16) :=
  if insn = context.mcountEncoding then if context.enableProfiling = .stats then some insnAddress else none
  else if isCallR23 insn then some (insnAddress + 1#16) else none

/-- The address of an instruction of a segment. -/
def insnAddress (address : BitVec 32) (insn : Nat) : BitVec 16 := (address + BitVec.ofNat 32 insn).truncate 16

/-- An entry before any sample. -/
def fresh (address : BitVec 16) : Option McountStat := some ⟨address, 0#64⟩

section Loop
variable {context : ProfilingContext} {nrThreads : Nat} {address : BitVec 32} {s : PatchState} {insn : Nat}

theorem isReturn_not_call {at_ : BitVec 16} {word : BitVec 64} (returns : context.isReturn at_ word = true) :
    isCallR23 word = false := by
  rw [ProfilingContext.isReturn, decide_eq_true_eq] at returns
  rw [returns.1]
  exact return_not_call

theorem site_isCall {at_ : BitVec 16} {word : BitVec 64} (found : (context.site at_ word).isSome) :
    isCallR23 word = true := by
  unfold ProfilingContext.site at found
  split_ifs at found with mcount stats call
  · rw [mcount]
    exact mcount_isCall context
  · cases found
  · exact call
  · cases found

theorem site_isSome {at_ : BitVec 16} {word : BitVec 64} (stats : context.enableProfiling = .stats) :
    (context.site at_ word).isSome = isCallR23 word := by
  unfold ProfilingContext.site
  by_cases mcount : word = context.mcountEncoding
  · rw [if_pos mcount, if_pos stats, mcount, mcount_isCall]
    rfl
  · rw [if_neg mcount]
    cases isCallR23 word <;> rfl

@[simp] theorem put_self : s.put insn (s.source insn) = s := by
  rw [PatchState.put, Function.update_eq_self]

/-- A turn patches its instruction and records it where it has a site. -/
theorem patchInstruction_eq :
    patchInstruction context nrThreads address s insn =
      let patched := s.put insn (context.patched (insnAddress address insn) (s.source insn))
      match context.site (insnAddress address insn) (s.source insn) with
      | some found => patched.record nrThreads found
      | none => patched := by
  unfold patchInstruction ProfilingContext.patched ProfilingContext.site insnAddress
  dsimp only
  by_cases mcount : s.source insn = context.mcountEncoding
  · simp only [if_pos mcount]
    cases context.enableProfiling <;> simp
  · simp only [if_neg mcount]
    cases returns : context.isReturn ((address + BitVec.ofNat 32 insn).truncate 16) (s.source insn) with
    | true =>
      by_cases stats : context.enableProfiling = .stats <;> simp [isReturn_not_call returns, stats]
    | false => cases isCallR23 (s.source insn) <;> simp

theorem patchInstruction_source : (patchInstruction context nrThreads address s insn).source =
    Function.update s.source insn (context.patched (insnAddress address insn) (s.source insn)) := by
  rw [patchInstruction_eq]
  dsimp only
  split <;> rfl

/-- The source after `n` turns. -/
def SourcePatched (context : ProfilingContext) (address : BitVec 32) (start source : Nat → BitVec 64)
    (n : Nat) : Prop :=
  ∀ insn, source insn = if insn < n then context.patched (insnAddress address insn) (start insn) else start insn

theorem SourcePatched.turn {start : Nat → BitVec 64} (sofar : SourcePatched context address start s.source insn) :
    SourcePatched context address start (patchInstruction context nrThreads address s insn).source (insn + 1) := by
  intro i
  rw [patchInstruction_source]
  by_cases same : i = insn
  · rw [same, Function.update_self, sofar insn, if_neg (Nat.lt_irrefl insn), if_pos (Nat.lt_succ_self insn)]
  · rw [Function.update_of_ne same, sofar i]
    simp only [Nat.lt_succ_iff_lt_or_eq, same, or_false]

theorem patchLoop_source (start : PatchState) (n : Nat) : SourcePatched context address start.source
    ((List.range n).foldl (patchInstruction context nrThreads address) start).source n :=
  foldl_range_inv (P := fun n (s : PatchState) => SourcePatched context address start.source s.source n)
    (fun _ => rfl)
    fun _ _ _ sofar => sofar.turn

/-- The addresses by which the instructions of a segment are counted. -/
def sites (context : ProfilingContext) (address : BitVec 32) (source : Nat → BitVec 64) (n : Nat) :
    List (BitVec 16) :=
  found (fun insn => context.site (insnAddress address insn) (source insn)) n

/-- The tables after `n` turns, from ones with cells behind the written ones. -/
structure Patched (context : ProfilingContext) (nrThreads : Nat) (address : BitVec 32) (start : PatchState)
    (written room : Nat → List (Option McountStat)) (n : Nat) (s : PatchState) : Prop where
  index : s.mcountIdx = start.mcountIdx + (sites context address start.source n).length
  tables : ∀ thId < nrThreads,
    s.mcountStats thId = some (written thId ++ (sites context address start.source n).map fresh ++
    (room thId).drop (sites context address start.source n).length)
  stray : s.stray = start.stray

variable {start : PatchState} {written room : Nat → List (Option McountStat)} {n : Nat}

theorem Patched.turn (sofar : Patched context nrThreads address start written room insn s)
    (source : SourcePatched context address start.source s.source insn)
    (lengths : ∀ thId < nrThreads, (written thId).length = start.mcountIdx)
    (fits : ∀ thId < nrThreads, (sites context address start.source (insn + 1)).length ≤ (room thId).length) :
    Patched context nrThreads address start written room (insn + 1)
    (patchInstruction context nrThreads address s insn) := by
  have here : s.source insn = start.source insn := by rw [source, if_neg (Nat.lt_irrefl insn)]
  have next : sites context address start.source (insn + 1) = sites context address start.source insn ++
    (context.site (insnAddress address insn) (start.source insn)).toList := found_succ _ _
  rw [patchInstruction_eq, here]
  cases found : context.site (insnAddress address insn) (start.source insn) with
  | none =>
    rw [found, Option.toList_none, List.append_nil] at next
    exact ⟨next ▸ sofar.index, next ▸ sofar.tables, sofar.stray⟩
  | some address' =>
    rw [found, Option.toList_some] at next
    have longer : (sites context address start.source (insn + 1)).length =
        (sites context address start.source insn).length + 1 := by
        rw [next, List.length_append, List.length_singleton]
    have place (thId : Nat) (inside : thId < nrThreads) :
        (written thId ++ (sites context address start.source insn).map fresh).length = s.mcountIdx := by
      rw [List.length_append, List.length_map, lengths thId inside, sofar.index]
    have left (thId : Nat) (inside : thId < nrThreads) :
        0 < ((room thId).drop (sites context address start.source insn).length).length := by
      have enough := fits thId inside
      rw [List.length_drop]
      omega
    refine ⟨?_, fun thId inside => ?_, ?_⟩
    · rw [longer, ← Nat.add_assoc, ← sofar.index]
      rfl
    · change (if thId < nrThreads then (s.mcountStats thId).map (·.set s.mcountIdx (fresh address')) else _) = _
      rw [if_pos inside, sofar.tables thId inside, Option.map_some, ← place thId inside,
        set_next (left thId inside),
        List.drop_drop, longer, next, List.map_append, List.append_assoc (written thId)]
      rfl
    · have inBounds :
          ((List.range nrThreads).any fun thId => ((s.mcountStats thId).getD []).length ≤ s.mcountIdx) = false := by
        refine List.any_eq_false.mpr fun thId member => ?_
        have inside := List.mem_range.mp member
        have behind := left thId inside
        rw [sofar.tables thId inside, Option.getD_some, List.length_append, place thId inside, decide_eq_true_eq]
        omega
      change
        (s.stray || (List.range nrThreads).any fun thId => ((s.mcountStats thId).getD []).length ≤ s.mcountIdx) = _
      rw [inBounds, Bool.or_false, sofar.stray]

/-- The loop over a segment whose sites fit in the cells behind the written ones. -/
theorem patchLoop (lengths : ∀ thId < nrThreads, (written thId).length = start.mcountIdx)
    (tables : ∀ thId < nrThreads, start.mcountStats thId = some (written thId ++ room thId))
    (fits : ∀ thId < nrThreads, (sites context address start.source n).length ≤ (room thId).length) :
    Patched context nrThreads address start written room n
      ((List.range n).foldl (patchInstruction context nrThreads address) start) := by
  have begun : Patched context nrThreads address start written room 0 start := by
    refine ⟨rfl, fun thId inside => ?_, rfl⟩
    rw [tables thId inside]
    exact congrArg some (by rw [show sites context address start.source 0 = [] from rfl]; simp)
  refine (foldl_range_inv (P := fun n (s : PatchState) => SourcePatched context address start.source s.source n ∧
    Patched context nrThreads address start written room n s) ⟨fun _ => rfl, begun⟩ fun insn small s sofar => ?_).2
  refine ⟨sofar.1.turn, sofar.2.turn sofar.1 lengths ?_⟩
  exact fun thId inside => Nat.le_trans (found_mono _ (Nat.succ_le_of_lt small)) (fits thId inside)

theorem countCalls_eq (source : Nat → BitVec 64) (n : Nat) (nr : BitVec 16) :
    countCalls source n nr = nr + BitVec.ofNat 16 (tally (fun insn => isCallR23 (source insn)) n) := by
  induction n with
  | zero => exact (BitVec.add_zero nr).symm
  | succ n ih =>
    rw [countCalls, List.range_succ, List.foldl_append, ← countCalls, ih, tally_succ]
    change (if isCallR23 (source n) then _ else _) = _
    cases isCallR23 (source n)
    · rfl
    · rw [if_pos rfl, Bool.toNat_true, BitVec.ofNat_add, BitVec.add_assoc]

end Loop

/-- The entries of a thread. -/
def ProfilingContext.entries (context : ProfilingContext) (thId : Nat) : List (Option McountStat) :=
  ((context.mcountStats.getD fun _ => none) thId).getD []

/-- There are tables, each with as many entries as are counted. -/
structure ProfilingContext.Sized (nrThreads : Nat) (context : ProfilingContext) : Prop where
  made : context.mcountStats.isSome
  length : ∀ thId < nrThreads, (context.entries thId).length = context.nrOfMcountStats.toNat

/-- Two contexts have the same method and addresses. -/
structure ProfilingContext.SameSetup (context other : ProfilingContext) : Prop where
  method : context.enableProfiling = other.enableProfiling
  mcount : context.mcountAddress = other.mcountAddress
  retMcount : context.retMcountAddress = other.retMcountAddress
  threadProfiling : context.threadProfilingAddress = other.threadProfilingAddress

theorem ProfilingContext.SameSetup.trans {first second third : ProfilingContext} (one : first.SameSetup second)
    (two : second.SameSetup third) : first.SameSetup third :=
  ⟨one.method.trans two.method, one.mcount.trans two.mcount, one.retMcount.trans two.retMcount,
    one.threadProfiling.trans two.threadProfiling⟩

theorem ProfilingContext.SameSetup.patches_iff {context other : ProfilingContext} (same : context.SameSetup other) :
    context.Patches ↔ other.Patches := by
  unfold ProfilingContext.Patches
  rw [same.method, same.mcount, same.retMcount, same.threadProfiling]

section Segments
variable {nrThreads n : Nat} {allocs : PatchAllocs} {context after : ProfilingContext} {address : BitVec 32}
  {source words : Nat → BitVec 64}

/-- What the patch of a segment makes of the tables. -/
structure SegmentCounted (nrThreads : Nat) (context : ProfilingContext) (source : Nat → BitVec 64)
    (address : BitVec 32)
    (n : Nat) (after : ProfilingContext) : Prop where
  setup : after.SameSetup context
  sized : after.Sized nrThreads
  total : after.nrOfMcountStats.toNat = context.nrOfMcountStats.toNat + tally
    (fun insn => isCallR23 (source insn)) n
  entries : context.enableProfiling = .stats →
    ∀ thId < nrThreads, after.entries thId = context.entries thId ++ (sites context address source n).map fresh
  stray : after.stray = context.stray

theorem sites_length_le :
    (sites context address source n).length ≤ tally (fun insn => isCallR23 (source insn)) n :=
  found_le_tally fun _ _ => site_isCall

theorem sites_length_eq (stats : context.enableProfiling = .stats) :
    (sites context address source n).length = tally (fun insn => isCallR23 (source insn)) n :=
  found_eq_tally fun _ _ => site_isSome stats

theorem ProfilingContext.SameSetup.patched_eq {other : ProfilingContext} (same : context.SameSetup other)
    (at_ : BitVec 16)
    (word : BitVec 64) : context.patched at_ word = other.patched at_ word := by
  obtain ⟨_, _, _, _, _, _, _⟩ := context
  obtain ⟨_, _, _, _, _, _, _⟩ := other
  obtain ⟨rfl, rfl, rfl, rfl⟩ := same
  rfl

theorem ProfilingContext.SameSetup.sites_eq {other : ProfilingContext} (same : context.SameSetup other) :
    sites context address source n = sites other address source n := by
  obtain ⟨_, _, _, _, _, _, _⟩ := context
  obtain ⟨_, _, _, _, _, _, _⟩ := other
  obtain ⟨rfl, rfl, rfl, rfl⟩ := same
  rfl

/-- The loop on tables with room for the calls that were counted. -/
theorem patchInstructions_ok {counted : ProfilingContext} {tables : Nat → Option (List (Option McountStat))}
    (passed : patchInstructions counted nrThreads address n context.nrOfMcountStats.toNat source = (.ok,
      after, words))
    (sized : context.Sized nrThreads) (setup : counted.SameSetup context) (stray : counted.stray = context.stray)
    (made : counted.mcountStats = some tables)
    (split : ∀ thId < nrThreads, tables thId = some (context.entries thId ++
      List.replicate (tally (fun insn => isCallR23 (source insn)) n) none))
    (total : counted.nrOfMcountStats.toNat =
      context.nrOfMcountStats.toNat + tally (fun insn => isCallR23 (source insn)) n) :
    SegmentCounted nrThreads context source address n after := by
  have fits (thId : Nat) (_ : thId < nrThreads) : (sites counted address source n).length ≤
      (List.replicate (tally (fun insn => isCallR23 (source insn)) n) (none : Option McountStat)).length := by
    rw [List.length_replicate]
    exact sites_length_le
  have done : Patched counted nrThreads address ⟨source, context.nrOfMcountStats.toNat, tables,
    counted.stray⟩ context.entries
      (fun _ => List.replicate (tally (fun insn => isCallR23 (source insn)) n) none) n
      ((List.range n).foldl (patchInstruction counted nrThreads address) ⟨source, context.nrOfMcountStats.toNat,
          tables, counted.stray⟩) :=
    patchLoop sized.length split fits
  rw [patchInstructions, made] at passed
  obtain ⟨-, rfl, rfl⟩ := passed
  have table (thId : Nat) (inside : thId < nrThreads) := congrArg (·.getD []) (done.tables thId inside)
  refine ⟨⟨setup.method, setup.mcount, setup.retMcount, setup.threadProfiling⟩,
    ⟨rfl, fun thId inside => (congrArg List.length (table thId inside)).trans ?_⟩, total,
    fun stats thId inside => (table thId inside).trans ?_, done.stray.trans stray⟩
  · have bound := @sites_length_le n counted address source
    simp only [Option.getD_some, List.length_append, List.length_map, List.length_drop, List.length_replicate,
      sized.length thId inside, total]
    omega
  · rw [Option.getD_some,
      List.drop_of_length_le (by rw [List.length_replicate, sites_length_eq (setup.method.trans stats)]),
      List.append_nil, setup.sites_eq]

theorem patchSegment_ok (sized : context.Sized nrThreads)
    (room : context.nrOfMcountStats.toNat + tally (fun insn => isCallR23 (source insn)) n < 2 ^ 16)
    (passed : patchSegment nrThreads allocs context source address n = (.ok, after, words)) :
    SegmentCounted nrThreads context source address n after := by
  obtain ⟨tables, made⟩ := Option.isSome_iff_exists.mp sized.made
  have total : (countCalls source n context.nrOfMcountStats).toNat =
      context.nrOfMcountStats.toNat + tally (fun insn => isCallR23 (source insn)) n := by
    rw [countCalls_eq, BitVec.toNat_add, BitVec.toNat_ofNat, Nat.add_mod_mod, Nat.mod_eq_of_lt room]
  have atThread (thId : Nat) : context.entries thId = (tables thId).getD [] := by
    rw [ProfilingContext.entries, made, Option.getD_some]
  unfold patchSegment at passed
  dsimp only at passed
  split_ifs at passed with none_ same
  · -- no call so far
    obtain ⟨-, rfl, rfl⟩ := passed
    have zero : context.nrOfMcountStats.toNat + tally (fun insn => isCallR23 (source insn)) n = 0 := by
      rw [← total, none_]
      rfl
    have nothing : sites context address source n = [] := by
      have bound := @sites_length_le n context address source
      exact List.length_eq_zero_iff.mp (by omega)
    refine ⟨⟨rfl, rfl, rfl, rfl⟩, ⟨sized.made, fun thId inside => ?_⟩, total, fun _ thId _ => ?_, rfl⟩
    · change (context.entries thId).length = (countCalls source n context.nrOfMcountStats).toNat
      have length := sized.length thId inside
      omega
    · rw [nothing, List.map_nil, List.append_nil]
      rfl
  · -- the tables grow by the calls of the segment
    rw [made] at passed
    dsimp only [growStats] at passed
    split_ifs at passed with grows
    · refine patchInstructions_ok passed sized ⟨rfl, rfl, rfl, rfl⟩ rfl rfl (fun thId inside => ?_) total
      have length := sized.length thId inside
      rw [if_pos inside, ← atThread, resize_grown (by omega), length, total, Nat.add_sub_cancel_left]
    · cases passed
  · -- the tables stay
    have uncalled : tally (fun insn => isCallR23 (source insn)) n = 0 := by
      rw [not_not.mp same] at total
      omega
    refine patchInstructions_ok passed sized ⟨rfl, rfl, rfl, rfl⟩ rfl made (fun thId inside => ?_) total
    rw [uncalled, List.replicate_zero, List.append_nil, atThread]
    cases table : tables thId with
    | none =>
      have length := sized.length thId inside
      rw [atThread, table] at length
      exact absurd (BitVec.eq_of_toNat_eq (length.symm.trans rfl)) (not_not.mp same ▸ none_)
    | some stats => rfl

/-- What a segment becomes, whatever the tables are: with a call so far every instruction is patched. -/
structure SegmentPatched (context : ProfilingContext) (source : Nat → BitVec 64) (address : BitVec 32) (n : Nat)
    (after : ProfilingContext) (words : Nat → BitVec 64) : Prop where
  setup : after.SameSetup context
  nr : after.nrOfMcountStats = countCalls source n context.nrOfMcountStats
  made : after.mcountStats.isSome = context.mcountStats.isSome
  words : ∀ insn, words insn = if insn < n ∧ countCalls source n context.nrOfMcountStats ≠ 0#16
    then context.patched (insnAddress address insn) (source insn) else source insn

theorem patchSegment_words (passed : patchSegment nrThreads allocs context source address n = (.ok, after, words)) :
    SegmentPatched context source address n after words := by
  have loop {counted : ProfilingContext} {initial : Nat}
      (looped : patchInstructions counted nrThreads address n initial source = (.ok, after, words))
      (setup : counted.SameSetup context)
        (nr : counted.nrOfMcountStats = countCalls source n context.nrOfMcountStats)
      (made : counted.mcountStats.isSome = context.mcountStats.isSome)
      (called : countCalls source n context.nrOfMcountStats ≠ 0#16) :
      SegmentPatched context source address n after words := by
    rw [patchInstructions] at looped
    obtain ⟨-, rfl, rfl⟩ := looped
    refine ⟨⟨setup.method, setup.mcount, setup.retMcount, setup.threadProfiling⟩, nr, ?_, fun insn => ?_⟩
    · rw [Option.isSome_map, made]
    · refine (patchLoop_source _ n insn).trans ?_
      rw [setup.patched_eq]
      exact if_congr (iff_self_and.mpr fun _ => called) rfl rfl
  unfold patchSegment at passed
  dsimp only at passed
  split_ifs at passed with none_ same
  · obtain ⟨-, rfl, rfl⟩ := passed
    exact ⟨⟨rfl, rfl, rfl, rfl⟩, rfl, rfl, fun insn => (if_neg fun both => both.2 none_).symm⟩
  · cases tables : context.mcountStats with
    | none =>
      rw [tables] at passed
      exact loop passed ⟨rfl, rfl, rfl, rfl⟩ rfl (by rw [tables]) none_
    | some mcountStats =>
      rw [tables] at passed
      dsimp only at passed
      split at passed
      · cases passed
      · exact loop passed ⟨rfl, rfl, rfl, rfl⟩ rfl (by rw [tables]; rfl) none_
  · exact loop passed ⟨rfl, rfl, rfl, rfl⟩ rfl rfl none_

variable {enabled init : Bool} {size : BitVec 32} {before : ProfilingContext}

/-- What a context comes with, before its segment is counted. -/
structure Begun (nrThreads : Nat) (context : ProfilingContext) (init : Bool)
    (before : ProfilingContext) : Prop where
  sized : before.Sized nrThreads
  stray : before.stray = context.stray
  first : init = true → before.nrOfMcountStats = 0#16 ∧ ∀ thId < nrThreads, before.entries thId = []
  later : init = false → before = context

/-- A first segment starts with empty tables, if the earlier ones were counted in tables. -/
theorem init_begun (counted : context.mcountStats = none → context.nrOfMcountStats = 0#16)
    (made : context.init nrThreads allocs = some before) : Begun nrThreads context true before := by
  unfold ProfilingContext.init at made
  cases tables : context.mcountStats with
  | none =>
    rw [tables] at made
    dsimp only at made
    split_ifs at made
    obtain rfl := Option.some.inj made
    have zero := counted tables
    exact ⟨⟨rfl, fun _ _ => (congrArg BitVec.toNat zero).symm⟩, rfl, fun _ => ⟨zero, fun _ _ => rfl⟩,
      fun late => by cases late⟩
  | some mcountStats =>
    rw [tables] at made
    obtain rfl := Option.some.inj made
    have empty (thId : Nat) (inside : thId < nrThreads) :
        ((if thId < nrThreads then none else mcountStats thId).getD [] : List (Option McountStat)) = [] := by
      rw [if_pos inside, Option.getD_none]
    exact ⟨⟨rfl, fun thId inside => congrArg List.length (empty thId inside)⟩, rfl, fun _ => ⟨rfl, empty⟩,
      fun late => by cases late⟩

/-- How many calls have been counted before a segment. A first one starts again, if there
are tables of an earlier load. -/
def ProfilingContext.earlier (init : Bool) (context : ProfilingContext) : BitVec 16 :=
  if init ∧ context.mcountStats.isSome then 0#16 else context.nrOfMcountStats

theorem prepare_setup (prepared : context.prepare nrThreads allocs init = some before) :
    before.SameSetup context ∧ before.nrOfMcountStats = context.earlier init ∧
      before.mcountStats.isSome = (context.mcountStats.isSome || init) := by
  unfold ProfilingContext.prepare at prepared
  unfold ProfilingContext.earlier
  cases init with
  | true =>
    rw [if_pos rfl] at prepared
    unfold ProfilingContext.init at prepared
    cases tables : context.mcountStats with
    | none =>
      rw [tables] at prepared
      dsimp only at prepared
      split_ifs at prepared
      obtain rfl := Option.some.inj prepared
      exact ⟨⟨rfl, rfl, rfl, rfl⟩, rfl, rfl⟩
    | some mcountStats =>
      rw [tables] at prepared
      obtain rfl := Option.some.inj prepared
      exact ⟨⟨rfl, rfl, rfl, rfl⟩, rfl, rfl⟩
  | false =>
    obtain rfl := Option.some.inj prepared
    exact ⟨⟨rfl, rfl, rfl, rfl⟩, by simp, (Bool.or_false _).symm⟩

/-- A patch that passes patches nothing or goes over the segment. -/
theorem patchProfiling_inv
    (passed : dpuPatchProfilingForDpu enabled nrThreads allocs context source address size init = (.ok,
      after, words)) :
    (¬ context.Patches ∧ after = context ∧ words = source) ∨
      (context.Patches ∧ ∃ before, context.prepare nrThreads allocs init = some before ∧
        patchSegment nrThreads allocs before source address (size.truncate 16).toNat = (.ok, after, words)) := by
  unfold dpuPatchProfilingForDpu at passed
  split_ifs at passed with disabled method located stats
  · cases passed
  · obtain ⟨-, rfl, rfl⟩ := passed
    refine .inl ⟨fun patches => ?_, rfl, rfl⟩
    obtain ⟨nop | stats, -⟩ := patches
    · simp [nop] at method
    · simp [stats] at method
  · cases passed
  · obtain ⟨-, rfl, rfl⟩ := passed
    refine .inl ⟨fun patches => ?_, rfl, rfl⟩
    obtain none_ | none_ | none_ := located
    · exact patches.2.1 none_
    · exact patches.2.2.1 none_
    · exact patches.2.2.2 none_
  · rw [not_or, not_or] at located
    have patches : context.Patches := by
      refine ⟨?_, located⟩
      revert method
      cases context.enableProfiling <;> simp
    split at passed
    · cases passed
    · exact .inr ⟨patches, _, by assumption, passed⟩

/-- What a patch that passes makes of the instructions and the count, whatever the tables are. -/
structure WordsPatched (context : ProfilingContext) (init : Bool) (source : Nat → BitVec 64)
    (address size : BitVec 32)
    (after : ProfilingContext) (words : Nat → BitVec 64) : Prop where
  setup : after.SameSetup context
  nr : context.Patches → after.nrOfMcountStats = countCalls source (size.truncate 16).toNat (context.earlier init)
  made : context.Patches → after.mcountStats.isSome = (context.mcountStats.isSome || init)
  words : ∀ insn, words insn =
    if insn < (size.truncate 16).toNat ∧ context.Patches ∧
        countCalls source (size.truncate 16).toNat (context.earlier init) ≠ 0#16 then
      context.patched (insnAddress address insn) (source insn)
    else source insn

theorem patchProfiling_words
    (passed : dpuPatchProfilingForDpu enabled nrThreads allocs context source address size init = (.ok,
      after, words)) :
    WordsPatched context init source address size after words := by
  obtain ⟨idle, rfl, rfl⟩ | ⟨patches, before, prepared, patched⟩ := patchProfiling_inv passed
  · exact ⟨⟨rfl, rfl, rfl, rfl⟩, fun patches => absurd patches idle, fun patches => absurd patches idle,
      fun insn => (if_neg fun both => idle both.2.1).symm⟩
  · obtain ⟨setup, nr, made, words'⟩ := patchSegment_words patched
    obtain ⟨begun, earlier, tables⟩ := prepare_setup prepared
    rw [earlier] at nr words'
    refine ⟨setup.trans begun, fun _ => nr, fun _ => made.trans tables, fun insn => ?_⟩
    rw [words' insn, begun.patched_eq]
    exact if_congr (and_congr_right fun _ => iff_and_self.mpr fun _ => patches) rfl rfl

/-- What a patch that passes makes of the tables. -/
theorem patchProfiling_ok (patches : context.Patches)
    (passed : dpuPatchProfilingForDpu enabled nrThreads allocs context source address size init = (.ok,
      after, words))
    (counted : init = true → context.mcountStats = none → context.nrOfMcountStats = 0#16)
    (sized : init = false → context.Sized nrThreads)
    (room : (if init then 0 else context.nrOfMcountStats.toNat) +
      tally (fun insn => isCallR23 (source insn)) (size.truncate 16).toNat < 2 ^ 16) :
    ∃ before, before.SameSetup context ∧ Begun nrThreads context init before ∧
      SegmentCounted nrThreads before source address (size.truncate 16).toNat after := by
  obtain ⟨idle, -, -⟩ | ⟨-, before, prepared, patched⟩ := patchProfiling_inv passed
  · exact absurd patches idle
  · have begun : Begun nrThreads context init before := by
      cases first : init with
      | true =>
        rw [first] at prepared
        exact init_begun (counted first) prepared
      | false =>
        rw [first] at prepared
        obtain rfl := Option.some.inj prepared
        exact ⟨sized first, rfl, (fun early => by cases early), fun _ => rfl⟩
    refine ⟨before, (prepare_setup prepared).1, begun, patchSegment_ok begun.sized ?_ patched⟩
    cases first : init with
    | true =>
      rwa [first, if_pos rfl, ← show before.nrOfMcountStats.toNat = 0 by rw [(begun.first first).1]; rfl] at room
    | false => rwa [first, if_neg Bool.false_ne_true, ← begun.later first] at room

end Segments

end Upmem.Profiler
