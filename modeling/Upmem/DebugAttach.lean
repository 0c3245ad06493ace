import Mathlib.Tactic.IntervalCases
import Upmem.DebugFaults

namespace Upmem.DebugFaults
open Commands MramAccess

section Storage
variable (dmaFault : Bool) (dmaThread : Nat) (memFault : Bool) (memThread : Nat)

theorem encode_guard : encodeErrorStorage dmaFault dmaThread memFault memThread >>> 12 = ERROR_STORAGE_GUARD := by
  unfold encodeErrorStorage
  generalize BitVec.ofNat 32 dmaThread = dma
  generalize BitVec.ofNat 32 memThread = mem
  refine BitVec.eq_of_getLsbD_eq fun i inside => ?_
  interval_cases i <;> cases dmaFault <;> cases memFault <;> simp [ERROR_STORAGE_GUARD]

theorem toNat_thread (thread : Nat) : (BitVec.ofNat 32 thread &&& 0x1f#32).toNat = thread % 32 := by
  rw [BitVec.toNat_and, BitVec.toNat_ofNat]
  have low := Nat.and_two_pow_sub_one_eq_mod (thread % 2 ^ 32) 5
  rw [show (0x1f#32).toNat = 2 ^ 5 - 1 from rfl, low]
  omega

theorem low_bits (i : Nat) (inside : i < 32) : (0x1f#32).getLsbD i = decide (i < 5) := by
  interval_cases i <;> rfl

theorem encode_dmaThread : encodeErrorStorage dmaFault dmaThread memFault memThread >>> 1 &&& 0x1f#32 =
    BitVec.ofNat 32 dmaThread &&& 0x1f#32 := by
  unfold encodeErrorStorage
  generalize BitVec.ofNat 32 dmaThread = dma
  generalize BitVec.ofNat 32 memThread = mem
  refine BitVec.eq_of_getLsbD_eq fun i inside => ?_
  by_cases field : i < 5
  · interval_cases i <;> cases dmaFault <;> cases memFault <;> simp [ERROR_STORAGE_GUARD]
  · rw [BitVec.getLsbD_and, BitVec.getLsbD_and, low_bits i inside, decide_eq_false field, Bool.and_false,
      Bool.and_false]

theorem encode_memThread : encodeErrorStorage dmaFault dmaThread memFault memThread >>> 7 &&& 0x1f#32 =
    BitVec.ofNat 32 memThread &&& 0x1f#32 := by
  unfold encodeErrorStorage
  generalize BitVec.ofNat 32 dmaThread = dma
  generalize BitVec.ofNat 32 memThread = mem
  refine BitVec.eq_of_getLsbD_eq fun i inside => ?_
  by_cases field : i < 5
  · interval_cases i <;> cases dmaFault <;> cases memFault <;> simp [ERROR_STORAGE_GUARD]
  · rw [BitVec.getLsbD_and, BitVec.getLsbD_and, low_bits i inside, decide_eq_false field, Bool.and_false,
      Bool.and_false]

theorem encode_flags : (encodeErrorStorage dmaFault dmaThread memFault memThread).getLsbD 0 = dmaFault ∧
    (encodeErrorStorage dmaFault dmaThread memFault memThread).getLsbD 6 = memFault := by
  unfold encodeErrorStorage
  generalize BitVec.ofNat 32 dmaThread = dma
  generalize BitVec.ofNat 32 memThread = mem
  constructor <;> cases dmaFault <;> cases memFault <;> simp [ERROR_STORAGE_GUARD]

/-- A stored word gives back the flags, and the threads that five bits hold. -/
theorem decode_encode : decodeErrorStorage (encodeErrorStorage dmaFault dmaThread memFault memThread) =
    some ⟨dmaFault, dmaThread % 32, memFault, memThread % 32⟩ := by
  rw [decodeErrorStorage, encode_guard, if_neg (not_not.mpr rfl), encode_dmaThread, encode_memThread, toNat_thread,
    toNat_thread, (encode_flags dmaFault dmaThread memFault memThread).1,
      (encode_flags dmaFault dmaThread memFault memThread).2]

theorem decode_threads {storage : BitVec 32} {stored : FaultContext}
    (decoded : decodeErrorStorage storage = some stored) :
    stored.dmaFaultThreadIndex < 32 ∧ stored.memFaultThreadIndex < 32 := by
  rw [decodeErrorStorage] at decoded
  split at decoded
  · cases decoded
  · cases decoded
    have field (bits : BitVec 32) : (bits &&& 0x1f#32).toNat < 32 := by
      have below : (bits &&& 0x1f#32).toNat ≤ (0x1f#32).toNat := Nat.and_le_right
      exact Nat.lt_succ_of_le below
    exact ⟨field _, field _⟩

end Storage

/-- The flag is an integer 0 or 1, so the second mask only leaves it for the member 0. -/
theorem isSeen_faultFlag {memberId : Nat} (inside : memberId < 8) (result : BitVec 8) :
    isSeen (faultFlag result (dpuMaskOne memberId)) (dpuMaskOne memberId) =
      (decide (memberId = 0) && result.getLsbD memberId) := by
  have selected : dpuMaskIsSelected result memberId = result.getLsbD memberId := dpuMaskIsSelected_eq inside
  rw [dpuMaskIsSelected, dpuMaskIntersection, dpuMaskEmpty] at selected
  rw [← selected, faultFlag]
  by_cases pending : result &&& dpuMaskOne memberId = 0#8
  · rw [pending, if_neg (not_not.mpr rfl)]
    simp [isSeen]
  · rw [if_pos pending]
    have bit : (result &&& dpuMaskOne memberId != 0#8) = true := bne_iff_ne.mpr pending
    rw [bit, Bool.and_true]
    interval_cases memberId <;> rfl

/-- What an attach that succeeds leaves. -/
structure Attached (dpu : DebuggedDpu) (attach : Attach) (s t : DebugState)
    (bkpSeen dmaSeen memSeen : Bool) : Prop where
  bkpFault : t.context.bkpFault =
    if bkpSeen then decide (bkpId dpu attach.drainedPcs s.registers.bkpThread ≠ DPU_FAULT_UNKNOWN_ID)
    else s.context.bkpFault
  bkpThread : t.context.bkpFaultThreadIndex =
    if bkpSeen then s.registers.bkpThread else s.context.bkpFaultThreadIndex
  dmaFault : t.context.dmaFault =
    ((dmaSeen || s.context.dmaFault) || ((decodeErrorStorage s.storage).map (·.dmaFault)).getD false)
  dmaThread : t.context.dmaFaultThreadIndex =
    if dmaSeen then s.registers.dmaThread
    else ((decodeErrorStorage s.storage).map (·.dmaFaultThreadIndex)).getD s.context.dmaFaultThreadIndex
  memFault : t.context.memFault =
    ((memSeen || s.context.memFault) || ((decodeErrorStorage s.storage).map (·.memFault)).getD false)
  memThread : t.context.memFaultThreadIndex =
    if memSeen then s.registers.memThread
    else ((decodeErrorStorage s.storage).map (·.memFaultThreadIndex)).getD s.context.memFaultThreadIndex
  storage : t.storage =
    if dmaSeen || memSeen then
    encodeErrorStorage t.context.dmaFault t.context.dmaFaultThreadIndex t.context.memFault
      t.context.dmaFaultThreadIndex
    else s.storage

theorem mergeStored_bkp (dmaSeen memSeen : Bool) (storage : BitVec 32) (context : DebugContext) :
    (mergeStored dmaSeen memSeen storage context).bkpFault = context.bkpFault ∧
      (mergeStored dmaSeen memSeen storage context).bkpFaultThreadIndex = context.bkpFaultThreadIndex := by
  unfold mergeStored
  split <;> exact ⟨rfl, rfl⟩

theorem mergeStored_dma (dmaSeen memSeen : Bool) (storage : BitVec 32) (context : DebugContext) :
    (mergeStored dmaSeen memSeen storage context).dmaFault =
        (context.dmaFault || ((decodeErrorStorage storage).map (·.dmaFault)).getD false) ∧
      (mergeStored dmaSeen memSeen storage context).dmaFaultThreadIndex =
        if dmaSeen then context.dmaFaultThreadIndex
        else ((decodeErrorStorage storage).map (·.dmaFaultThreadIndex)).getD context.dmaFaultThreadIndex := by
  unfold mergeStored
  cases decodeErrorStorage storage with
  | none => cases dmaSeen <;> simp
  | some stored => cases dmaSeen <;> simp

theorem mergeStored_mem (dmaSeen memSeen : Bool) (storage : BitVec 32) (context : DebugContext) :
    (mergeStored dmaSeen memSeen storage context).memFault =
        (context.memFault || ((decodeErrorStorage storage).map (·.memFault)).getD false) ∧
      (mergeStored dmaSeen memSeen storage context).memFaultThreadIndex =
        if memSeen then context.memFaultThreadIndex
        else ((decodeErrorStorage storage).map (·.memFaultThreadIndex)).getD context.memFaultThreadIndex := by
  unfold mergeStored
  cases decodeErrorStorage storage with
  | none => cases memSeen <;> simp
  | some stored => cases memSeen <;> simp

variable {dpu : DebuggedDpu} {attach : Attach} {s t : DebugState}

theorem ciDebugInitDpu_ok {r : PUnit} (ok : Returns (ciDebugInitDpu dpu attach true) s r t) :
    Attached dpu attach s t (decide (dpu.memberId = 0) && s.registers.bkpFault.getLsbD dpu.memberId)
      (decide (dpu.memberId = 0) && s.registers.dmaFault.getLsbD dpu.memberId)
      (decide (dpu.memberId = 0) && s.registers.memFault.getLsbD dpu.memberId) := by
  simp only [ciDebugInitDpu, returns_bind, if_true] at ok
  obtain ⟨faults, s₁, read, _, s₂, bkp, _, s₃, dma, _, s₄, mem, last⟩ := ok
  obtain ⟨rfl, _, storage₁, context₁⟩ := readFaults_ok read
  obtain ⟨others, bkpFields⟩ := recordBkpFault_ok bkp
  obtain ⟨keeps₃, memFault₃, memThread₃, dmaFault₃, dmaThread₃⟩ := recordDmaFault_ok dma
  obtain ⟨keeps₄, dmaFault₄, dmaThread₄, memFault₄, memThread₄⟩ := recordMemFault_ok mem
  obtain ⟨_, context, storage⟩ := rememberFaults_ok last
  have seen (result : BitVec 8) := isSeen_faultFlag dpu.memberId_lt result
  simp only [FaultRegisters.faults, seen] at bkpFields dmaFault₃ dmaThread₃ memFault₄ memThread₄ context storage
  generalize (decide (dpu.memberId = 0) && s.registers.bkpFault.getLsbD dpu.memberId) = bkpSeen at *
  generalize (decide (dpu.memberId = 0) && s.registers.dmaFault.getLsbD dpu.memberId) = dmaSeen at *
  generalize (decide (dpu.memberId = 0) && s.registers.memFault.getLsbD dpu.memberId) = memSeen at *
  have before : s₄.storage = s.storage := by
    rw [keeps₄.storage, keeps₃.storage, others.storage, storage₁]
  have bkpMerged := mergeStored_bkp dmaSeen memSeen s₄.storage s₄.context
  have dmaMerged := mergeStored_dma dmaSeen memSeen s₄.storage s₄.context
  have memMerged := mergeStored_mem dmaSeen memSeen s₄.storage s₄.context
  rw [← context] at bkpMerged dmaMerged memMerged
  rw [before] at dmaMerged memMerged
  rw [context₁] at bkpFields
  rw [before] at storage
  have dmaFault₂ := others.dmaFault
  have dmaThread₂ := others.dmaFaultThreadIndex
  have memFault₂ := others.memFault
  have memThread₂ := others.memFaultThreadIndex
  rw [context₁] at dmaFault₂ dmaThread₂ memFault₂ memThread₂
  exact
    { bkpFault := by
        rw [bkpMerged.1, keeps₄.bkpFault, keeps₃.bkpFault]
        cases bkpSeen with
        | true => exact bkpFields.1
        | false => exact bkpFields.1
      bkpThread := by
        rw [bkpMerged.2, keeps₄.bkpFaultThreadIndex, keeps₃.bkpFaultThreadIndex]
        cases bkpSeen with
        | true => exact bkpFields.2
        | false => exact bkpFields.2
      dmaFault := by rw [dmaMerged.1, dmaFault₄, dmaFault₃, dmaFault₂]
      dmaThread := by
        rw [dmaMerged.2, dmaThread₄, dmaThread₃, dmaThread₂]
        cases dmaSeen <;> rfl
      memFault := by rw [memMerged.1, memFault₄, memFault₃, memFault₂]
      memThread := by
        rw [memMerged.2, memThread₄, memThread₃, memThread₂]
        cases memSeen <;> rfl
      storage := storage }

/-- The faults that attaches have reported, with their threads. -/
structure Reported where
  dma : Option Nat
  mem : Option Nat

/-- A fault of the DPU is pending. -/
def DebuggedDpu.pending (dpu : DebuggedDpu) (result : BitVec 8) : Bool := result.getLsbD dpu.memberId

/-- The faults reported with those that are pending. -/
def Reported.after (reported : Reported) (dpu : DebuggedDpu) (registers : FaultRegisters) : Reported :=
  { dma := if dpu.pending registers.dmaFault then some registers.dmaThread else reported.dma
    mem := if dpu.pending registers.memFault then some registers.memThread else reported.mem }

/-- A context has the DMA and memory faults that are reported, with their threads. -/
structure FaultsReported (context : DebugContext) (reported : Reported) : Prop where
  dmaFault : context.dmaFault = reported.dma.isSome
  dmaThread : ∀ thread, reported.dma = some thread → context.dmaFaultThreadIndex = thread
  memFault : context.memFault = reported.mem.isSome
  memThread : ∀ thread, reported.mem = some thread → context.memFaultThreadIndex = thread

/-- A breakpoint with a known identifier is pending. -/
def knownBkp (dpu : DebuggedDpu) (attach : Attach) (registers : FaultRegisters) : Bool :=
  dpu.pending registers.bkpFault && decide (bkpId dpu attach.drainedPcs registers.bkpThread ≠ DPU_FAULT_UNKNOWN_ID)

structure BkpReported (dpu : DebuggedDpu) (attach : Attach) (registers : FaultRegisters)
    (context : DebugContext) : Prop where
  bkpFault : context.bkpFault = knownBkp dpu attach registers
  bkpThread : context.bkpFault = true → context.bkpFaultThreadIndex = registers.bkpThread

/-- The word of the storage gives the faults that are reported. -/
def Remembers (storage : BitVec 32) (reported : Reported) : Prop :=
  match decodeErrorStorage storage with
  | none => reported = ⟨none, none⟩
  | some stored =>
    stored.dmaFault = reported.dma.isSome ∧
      (∀ thread, reported.dma = some thread → stored.dmaFaultThreadIndex = thread) ∧
      stored.memFault = reported.mem.isSome ∧ ∀ thread, reported.mem = some thread →
        stored.memFaultThreadIndex = thread

/-- The thread of the DMA fault in the context when it is stored. -/
def storedThread (dpu : DebuggedDpu) (attach : Attach) (s : DebugState) : Nat :=
  if dpu.pending s.registers.dmaFault then s.registers.dmaThread
  else ((decodeErrorStorage s.storage).map (·.dmaFaultThreadIndex)).getD attach.context.dmaFaultThreadIndex

/-- The condition on an attach: the DPU is the member 0, or it has no fault to report; the context is given without
faults that are not to be reported; and when a fault is pending, the thread of the memory fault that is reported
is that of the DMA fault in the context. -/
structure AttachMeets (dpu : DebuggedDpu) (attach : Attach) (s : DebugState) (reported : Reported) : Prop where
  memberId : dpu.memberId = 0 ∨
    (dpu.pending s.registers.dmaFault = false ∧ dpu.pending s.registers.memFault = false ∧
    knownBkp dpu attach s.registers = false)
  bkpFault : attach.context.bkpFault = true → dpu.memberId = 0 ∧ dpu.pending s.registers.bkpFault = true
  dmaFault : attach.context.dmaFault = true → (reported.after dpu s.registers).dma.isSome
  memFault : attach.context.memFault = true → (reported.after dpu s.registers).mem.isSome
  memThread : dpu.pending s.registers.dmaFault = true ∨ dpu.pending s.registers.memFault = true →
    ∀ thread, (reported.after dpu s.registers).mem = some thread → storedThread dpu attach s = thread

theorem remembers_bounds {storage : BitVec 32} {reported : Reported} (remembers : Remembers storage reported) :
    (∀ thread, reported.dma = some thread → thread < 32) ∧ ∀ thread, reported.mem = some thread → thread < 32 := by
  rw [Remembers] at remembers
  split at remembers
  · subst remembers
    exact ⟨fun thread impossible => (by cases impossible), fun thread impossible => (by cases impossible)⟩
  · rename_i stored decoded
    obtain ⟨_, dma, _, mem⟩ := remembers
    have bounds := decode_threads decoded
    exact ⟨fun thread is => dma thread is ▸ bounds.1, fun thread is => mem thread is ▸ bounds.2⟩

theorem remembers_dma {storage : BitVec 32} {reported : Reported} (remembers : Remembers storage reported) :
    ((decodeErrorStorage storage).map (·.dmaFault)).getD false = reported.dma.isSome ∧
      ∀ thread, reported.dma = some thread → ∀ given,
      ((decodeErrorStorage storage).map (·.dmaFaultThreadIndex)).getD given = thread := by
  rw [Remembers] at remembers
  split at remembers
  · rename_i decoded
    subst remembers
    rw [decoded]
    exact ⟨rfl, fun thread impossible => (by cases impossible)⟩
  · rename_i stored decoded
    rw [decoded]
    exact ⟨remembers.1, fun thread is _ => remembers.2.1 thread is⟩

theorem remembers_mem {storage : BitVec 32} {reported : Reported} (remembers : Remembers storage reported) :
    ((decodeErrorStorage storage).map (·.memFault)).getD false = reported.mem.isSome ∧
      ∀ thread, reported.mem = some thread → ∀ given,
      ((decodeErrorStorage storage).map (·.memFaultThreadIndex)).getD given = thread := by
  rw [Remembers] at remembers
  split at remembers
  · rename_i decoded
    subst remembers
    rw [decoded]
    exact ⟨rfl, fun thread impossible => (by cases impossible)⟩
  · rename_i stored decoded
    rw [decoded]
    exact ⟨remembers.2.2.1, fun thread is _ => remembers.2.2.2 thread is⟩

/-- A fault that is pending or remembered is the one that is reported. -/
theorem flag_reported {pending given stored : Bool} {reported : Option Nat} (thread : Nat)
    (remembered : stored = reported.isSome)
    (allowed : given = true → (if pending then some thread else reported).isSome) :
    ((pending || given) || stored) = (if pending then some thread else reported).isSome := by
  subst remembered
  cases pending with
  | true => rfl
  | false =>
    cases given with
    | true => exact (allowed rfl).symm
    | false => rfl

theorem thread_reported {pending : Bool} {reported : Option Nat} {thread kept : Nat}
    (remembered : ∀ other, reported = some other → kept = other) (other : Nat)
    (is : (if pending then some thread else reported) = some other) :
    (if pending then thread else kept) = other := by
  cases pending with
  | true => exact Option.some.inj is
  | false => exact remembered other is

theorem after_bounds {reported : Reported} {storage : BitVec 32} (dpu : DebuggedDpu) (registers : FaultRegisters)
    (remembers : Remembers storage reported) :
    (∀ thread, (reported.after dpu registers).dma = some thread → thread < 32) ∧
      ∀ thread, (reported.after dpu registers).mem = some thread → thread < 32 := by
  have bounds := remembers_bounds remembers
  have dma := registers.dmaThread_lt
  have mem := registers.memThread_lt
  rw [DPU_NR_THREADS] at dma mem
  constructor
  · intro thread is
    rw [Reported.after] at is
    split at is
    · cases is
      omega
    · exact bounds.1 thread is
  · intro thread is
    rw [Reported.after] at is
    dsimp only at is
    split at is
    · cases is
      omega
    · exact bounds.2 thread is

/-- An attach that succeeds under the condition reports the faults and remembers them. -/
theorem attached_reports {reported : Reported} (given : s.context = attach.context)
    (remembers : Remembers s.storage reported) (meets : AttachMeets dpu attach s reported) {r : PUnit}
    (ok : Returns (ciDebugInitDpu dpu attach true) s r t) :
    FaultsReported t.context (reported.after dpu s.registers) ∧ BkpReported dpu attach s.registers t.context ∧
      Remembers t.storage (reported.after dpu s.registers) := by
  have attached := ciDebugInitDpu_ok ok
  have dmaSeen : (decide (dpu.memberId = 0) && s.registers.dmaFault.getLsbD dpu.memberId) =
      dpu.pending s.registers.dmaFault := by
    rcases meets.memberId with first | ⟨quiet, _⟩
    · rw [decide_eq_true first, Bool.true_and]
      rfl
    · rw [show s.registers.dmaFault.getLsbD dpu.memberId = false from quiet, quiet, Bool.and_false]
  have memSeen : (decide (dpu.memberId = 0) && s.registers.memFault.getLsbD dpu.memberId) =
      dpu.pending s.registers.memFault := by
    rcases meets.memberId with first | ⟨_, quiet, _⟩
    · rw [decide_eq_true first, Bool.true_and]
      rfl
    · rw [show s.registers.memFault.getLsbD dpu.memberId = false from quiet, quiet, Bool.and_false]
  rw [dmaSeen, memSeen] at attached
  have storedDma := remembers_dma remembers
  have storedMem := remembers_mem remembers
  have faults : FaultsReported t.context (reported.after dpu s.registers) :=
    { dmaFault := by
        rw [attached.dmaFault]
        exact flag_reported s.registers.dmaThread storedDma.1 fun flag => meets.dmaFault (given ▸ flag)
      dmaThread := fun thread is => by
        rw [attached.dmaThread]
        exact thread_reported (fun other was => storedDma.2 other was _) thread is
      memFault := by
        rw [attached.memFault]
        exact flag_reported s.registers.memThread storedMem.1 fun flag => meets.memFault (given ▸ flag)
      memThread := fun thread is => by
        rw [attached.memThread]
        exact thread_reported (fun other was => storedMem.2 other was _) thread is }
  refine ⟨faults, ?_, ?_⟩
  · have bkpFault := attached.bkpFault
    have bkpThread := attached.bkpThread
    rw [given] at bkpFault bkpThread
    by_cases seen : (decide (dpu.memberId = 0) && s.registers.bkpFault.getLsbD dpu.memberId) = true
    · rw [seen] at bkpFault bkpThread
      have pending : dpu.pending s.registers.bkpFault = true := (Bool.and_eq_true_iff.mp seen).2
      exact ⟨by rw [bkpFault, knownBkp, pending]; rfl, fun _ => bkpThread⟩
    · rw [Bool.eq_false_iff.mpr seen] at bkpFault
      have clear : attach.context.bkpFault = false := by
        refine Bool.eq_false_iff.mpr fun flag => seen ?_
        obtain ⟨first, pending⟩ := meets.bkpFault flag
        rw [decide_eq_true first, Bool.true_and]
        exact pending
      have unknown : knownBkp dpu attach s.registers = false := by
        rcases meets.memberId with first | ⟨_, _, unknown⟩
        · rw [decide_eq_true first, Bool.true_and] at seen
          rw [knownBkp, show dpu.pending s.registers.bkpFault = false from Bool.eq_false_iff.mpr seen,
            Bool.false_and]
        · exact unknown
      have reported : t.context.bkpFault = false := bkpFault.trans clear
      exact ⟨reported.trans unknown.symm, fun flag => absurd (reported.symm.trans flag) (by decide)⟩
  · rw [attached.storage]
    by_cases seen : (dpu.pending s.registers.dmaFault || dpu.pending s.registers.memFault) = true
    · have index : t.context.dmaFaultThreadIndex = storedThread dpu attach s := by
        rw [attached.dmaThread, storedThread, given]
      have bounds := after_bounds dpu s.registers remembers
      rw [if_pos seen, Remembers, decode_encode]
      refine ⟨faults.dmaFault, fun thread is => ?_, faults.memFault, fun thread is => ?_⟩
      · rw [faults.dmaThread thread is]
        exact Nat.mod_eq_of_lt (bounds.1 thread is)
      · rw [index, meets.memThread (by simpa using seen) thread is]
        exact Nat.mod_eq_of_lt (bounds.2 thread is)
    · rw [if_neg seen]
      have quiet : dpu.pending s.registers.dmaFault = false ∧ dpu.pending s.registers.memFault = false := by
        simpa using seen
      rw [Reported.after, quiet.1, quiet.2]
      exact remembers

section Failure
variable {word : BitVec 32}

theorem keeps_ff {P : DebugState → Prop} (command : DebugCommand) : Keeps P (ff attach command) := by
  rw [ff]
  split
  · exact keeps_pure
  · exact keeps_throw

theorem keeps_onContext (change : DebugContext → DebugContext) :
    Keeps (fun s : DebugState => s.storage = word) (onContext change) := keeps_modify fun _ kept => kept

theorem keeps_decrementThreadPc (fault : FaultKind) (thread : Nat) :
    Keeps (fun s : DebugState => s.storage = word) (decrementThreadPc dpu attach fault thread) :=
  keeps_bind (keeps_ff _) fun _ => keeps_bind (keeps_onContext _) fun _ => keeps_ff _

theorem keeps_readFaults : Keeps (fun s : DebugState => s.storage = word) (readFaults dpu attach) := by
  unfold readFaults
  repeat first
    | exact keeps_pure
    | refine keeps_bind (keeps_ff _) fun _ => ?_
    | refine keeps_bind keeps_get fun _ => ?_
    | refine keeps_bind (keeps_onContext _) fun _ => ?_
    | refine keeps_bind (keeps_modify fun _ kept => kept) fun _ => ?_

variable (faults : Faults)

theorem keeps_recordBkpFault :
    Keeps (fun s : DebugState => s.storage = word) (recordBkpFault dpu attach faults) := by
  unfold recordBkpFault
  split
  · refine keeps_bind (keeps_onContext _) fun _ => keeps_bind keeps_get fun _ => keeps_bind (keeps_ff _) fun _ =>
      keeps_bind (keeps_onContext _) fun _ => ?_
    split
    · exact keeps_onContext _
    · exact keeps_decrementThreadPc .bkp faults.bkpThread
  · exact keeps_pure

theorem keeps_recordDmaFault :
    Keeps (fun s : DebugState => s.storage = word) (recordDmaFault dpu attach faults) := by
  unfold recordDmaFault
  split
  · exact keeps_bind (keeps_onContext _) fun _ => keeps_decrementThreadPc .dma faults.dmaThread
  · exact keeps_pure

theorem keeps_recordMemFault :
    Keeps (fun s : DebugState => s.storage = word) (recordMemFault dpu attach faults) := by
  unfold recordMemFault
  split
  · exact keeps_bind (keeps_onContext _) fun _ => keeps_decrementThreadPc .mem faults.memThread
  · exact keeps_pure

/-- The storage is written last, so an attach that fails leaves it. -/
theorem keepsOnError_ciDebugInitDpu :
    KeepsOnError (fun s : DebugState => s.storage = word) (ciDebugInitDpu dpu attach true) := by
  refine keepsOnError_bind keeps_readFaults fun faults => keepsOnError_bind (keeps_recordBkpFault faults) fun _ =>
    keepsOnError_bind (keeps_recordDmaFault faults) fun _ =>
      keepsOnError_bind (keeps_recordMemFault faults) fun _ => ?_
  refine keepsOnError_bind (keeps_ff _) fun _ => keepsOnError_bind (keeps_modify fun _ kept => kept) fun _ => ?_
  split
  · exact keepsOnError_bind (keeps_ff _) fun _ => keepsOnError_modify
  · exact keeps_pure.onError

end Failure

/-- An attach to a DPU that stays stopped, with the context of its caller. -/
def runAttach (dpu : DebuggedDpu) (s : DebugState) (attach : Attach) : Except DpuError PUnit × DebugState :=
  exec (ciDebugInitDpu dpu attach true) { s with context := attach.context }

/-- The attach returns `DPU_OK`. -/
def succeeds : Except DpuError PUnit → Bool
  | .ok _ => true
  | .error _ => false

/-- What has been reported after an attach. -/
def Reported.next (reported : Reported) (dpu : DebuggedDpu) (s : DebugState) (attach : Attach) : Reported :=
  if succeeds (runAttach dpu s attach).1 then reported.after dpu s.registers else reported

/-- Of the attaches to a stopped DPU, each one that succeeds reports the faults that are pending, and
those that an earlier one has reported. -/
def RunReports (dpu : DebuggedDpu) : DebugState → Reported → List Attach → Prop
  | _, _, [] => True
  | s, reported, attach :: attaches =>
    (succeeds (runAttach dpu s attach).1 = true →
      FaultsReported (runAttach dpu s attach).2.context (reported.after dpu s.registers) ∧
        BkpReported dpu attach s.registers (runAttach dpu s attach).2.context) ∧
    RunReports dpu (runAttach dpu s attach).2 (reported.next dpu s attach) attaches

/-- The attaches that succeed meet the condition. -/
def RunMeets (dpu : DebuggedDpu) : DebugState → Reported → List Attach → Prop
  | _, _, [] => True
  | s, reported, attach :: attaches =>
    (succeeds (runAttach dpu s attach).1 = true → AttachMeets dpu attach s reported) ∧
    RunMeets dpu (runAttach dpu s attach).2 (reported.next dpu s attach) attaches

/-- What an attach is given in its context does not change the state before it. -/
theorem AttachMeets.given {reported : Reported} (meets : AttachMeets dpu attach s reported)
    (context : DebugContext) :
    AttachMeets dpu attach { s with context := context } reported :=
  ⟨meets.memberId, meets.bkpFault, meets.dmaFault, meets.memFault, meets.memThread⟩

theorem runAttach_error {e : DpuError} (failed : runAttach dpu s attach = (.error e, t)) :
    t.storage = s.storage := by
  have kept : KeepsOnError (fun u : DebugState => u.storage = s.storage) (ciDebugInitDpu dpu attach true) :=
    keepsOnError_ciDebugInitDpu
  exact kept { s with context := attach.context } e t rfl failed

theorem runAttach_ok {reported : Reported} (remembers : Remembers s.storage reported)
    (meets : AttachMeets dpu attach s reported) {r : PUnit} (ok : runAttach dpu s attach = (.ok r, t)) :
    FaultsReported t.context (reported.after dpu s.registers) ∧ BkpReported dpu attach s.registers t.context ∧
      Remembers t.storage (reported.after dpu s.registers) :=
  @attached_reports dpu attach { s with context := attach.context } t reported rfl remembers
    (meets.given attach.context) r ok

theorem run_reports {reported : Reported} (remembers : Remembers s.storage reported) {attaches : List Attach}
    (meets : RunMeets dpu s reported attaches) : RunReports dpu s reported attaches := by
  induction attaches generalizing s reported with
  | nil => trivial
  | cons attach attaches ih =>
    obtain ⟨first, rest⟩ := meets
    rw [RunReports]
    rw [Reported.next] at rest ⊢
    cases result : runAttach dpu s attach with
    | mk status t =>
      rw [result] at first rest
      cases status with
      | error e =>
        refine ⟨fun impossible => (by cases impossible), ih ?_ rest⟩
        rw [runAttach_error result]
        exact remembers
      | ok r =>
        obtain ⟨faults, bkp, remembered⟩ := runAttach_ok remembers (first rfl) result
        exact ⟨fun _ => ⟨faults, bkp⟩, ih remembered rest⟩

/-- The attaches to a stopped DPU whose storage holds no fault report the faults that are pending, and those that
earlier ones have read, if each that succeeds meets the condition. -/
theorem attaches_reports (fresh : decodeErrorStorage s.storage = none) {attaches : List Attach}
    (meets : RunMeets dpu s ⟨none, none⟩ attaches) : RunReports dpu s ⟨none, none⟩ attaches :=
  run_reports (by rw [Remembers, fresh]) meets

def noFaultContext : DebugContext := ⟨false, 0, 0#32, false, 0, false, 0, fun _ => 0#16⟩

/-- An attach in which no call fails. -/
def fineAttach : Attach := ⟨noFaultContext, fun _ => 0#16, fun _ => .ok⟩

/-- A DMA fault of the thread 3 on each DPU of the control interface. -/
def dmaFaulty : DebugState :=
  { registers := ⟨0#8, 0xff#8, 0#8, 0, 3, 0, by decide, DPU_NR_THREADS_pos⟩
    storage := 0#32
    context := noFaultContext }

theorem firstMember_lt : 0 < 8 := by decide

def firstMember : DebuggedDpu := ⟨0, fun _ => 0#64, 4096#16, firstMember_lt⟩

theorem attaches_reports_dma : RunReports firstMember dmaFaulty ⟨none, none⟩ [fineAttach, fineAttach] :=
  attaches_reports rfl
    ⟨fun _ => ⟨.inl rfl, fun flag => (by cases flag), fun flag => (by cases flag), fun flag => (by cases flag),
        fun _ thread is => (by cases is)⟩,
      fun _ => ⟨.inl rfl, fun flag => (by cases flag), fun flag => (by cases flag), fun flag => (by cases flag),
        fun _ thread is => (by cases is)⟩, trivial⟩

/-- The DMA fault of the second DPU of a control interface is not reported. -/
theorem secondMember_not_reports :
    ¬RunReports ⟨1, fun _ => 0#64, 4096#16, by decide⟩ dmaFaulty ⟨none, none⟩ [fineAttach] :=
  fun reports => absurd (reports.1 rfl).1.dmaFault (by decide)

end Upmem.DebugFaults
