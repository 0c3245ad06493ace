import Upmem.SgHandler

namespace Upmem.SymbolBounds

open Sg (DpuXfer MRAM_MASK)

/-- `struct dpu_symbol_t`. -/
structure DpuSymbol where
  address : BitVec 32
  size : BitVec 32

/-- The sizes of `hw.memories` in instructions and in words; the one of the MRAM is in the description. -/
structure Memories where
  iramSize : BitVec 16
  wramSize : BitVec 32

def IRAM_MASK : BitVec 32 := 0x80000000#32
def IRAM_ALIGN : Nat := 3
def WRAM_ALIGN : Nat := 2

def ALIGN_MASK (align : Nat) : BitVec 32 := ~~~ ((1#32 <<< align) - 1#32)

inductive Memory
  | iram | mram | wram
  deriving DecidableEq

/-- `MEMORY_SWITCH`. -/
def memorySwitch (address : BitVec 32) : Memory :=
  if address &&& IRAM_MASK = IRAM_MASK then .iram
  else if address &&& MRAM_MASK = MRAM_MASK then .mram
  else .wram

/-- `CHECK_SYMBOL`: the status that it returns, if it does. -/
def checkSymbol (symbol : DpuSymbol) (symbolOffset : BitVec 32) (length : BitVec 64) : Option DpuError :=
  let address := symbol.address + symbolOffset
  if symbol.size.setWidth 64 < symbolOffset.setWidth 64 + length then some .invalidSymbolAccess
  else
    match memorySwitch address with
    | .iram =>
      if address &&& ~~~ ALIGN_MASK IRAM_ALIGN ≠ 0#32 then some .invalidIramAccess
      else if length &&& (~~~ ALIGN_MASK IRAM_ALIGN).setWidth 64 ≠ 0#64 then some .invalidIramAccess
      else none
    | .mram => none
    | .wram =>
      if address &&& ~~~ ALIGN_MASK WRAM_ALIGN ≠ 0#32 then some .invalidWramAccess
      else if length &&& (~~~ ALIGN_MASK WRAM_ALIGN).setWidth 64 ≠ 0#64 then some .invalidWramAccess
      else none

/-- How a job names the buffers: a matrix in either direction, or one buffer for the rank. -/
inductive JobKind
  | toMatrix | fromMatrix | toRank
  deriving DecidableEq

/-- The fields of `struct dpu_thread_job` of a copy. -/
structure CopyJob where
  kind : JobKind
  memory : Memory
  address : BitVec 32
  length : BitVec 32

/-- The job whose type and parameters `MEMORY_SWITCH_AND_UPDATE_COPY_PARAMETERS` sets. -/
def copyJob (kind : JobKind) (address : BitVec 32) (length : BitVec 64) : CopyJob :=
  match memorySwitch address with
  | .iram => ⟨kind, .iram, (address &&& ~~~ IRAM_MASK) >>> IRAM_ALIGN, (length >>> IRAM_ALIGN).truncate 32⟩
  | .mram => ⟨kind, .mram, address &&& ~~~ MRAM_MASK, length.truncate 32⟩
  | .wram => ⟨kind, .wram, address >>> WRAM_ALIGN, (length >>> WRAM_ALIGN).truncate 32⟩

section Requests
variable (symbol : DpuSymbol) (symbolOffset : BitVec 32) (length : BitVec 64)

/-- The job on transfer matrices, behind `CHECK_SYMBOL`. -/
def matrixJob (xfer : DpuXfer) : Except DpuError CopyJob :=
  match checkSymbol symbol symbolOffset length with
  | some status => .error status
  | none =>
    match xfer with
    | .toDpu => .ok (copyJob .toMatrix (symbol.address + symbolOffset) length)
    | .fromDpu => .ok (copyJob .fromMatrix (symbol.address + symbolOffset) length)
    | .other => .error .invalidMemoryTransfer

def dpuCopySymbolDpu (enabled : Bool) (xfer : DpuXfer) : Except DpuError CopyJob :=
  if !enabled then .error .dpuDisabled else matrixJob symbol symbolOffset length xfer

def dpuBroadcastToSymbolForRanks : Except DpuError CopyJob :=
  match checkSymbol symbol symbolOffset length with
  | some status => .error status
  | none => .ok (copyJob .toRank (symbol.address + symbolOffset) length)

/-- The kinds of a `dpu_set_t`, with `enabled` of its DPU. -/
inductive SetKind
  | ranks
  | dpu (enabled : Bool)
  | other

/-- `dpu_broadcast_to_symbol`, which `dpu_copy_to` calls too. -/
def dpuBroadcastToSymbol : SetKind → Except DpuError CopyJob
  | .ranks => dpuBroadcastToSymbolForRanks symbol symbolOffset length
  | .dpu enabled => dpuCopySymbolDpu symbol symbolOffset length enabled .toDpu
  | .other => .error .internal

def dpuCopyFrom : SetKind → Except DpuError CopyJob
  | .ranks => .error .invalidDpuSet
  | .dpu enabled => dpuCopySymbolDpu symbol symbolOffset length enabled .fromDpu
  | .other => .error .internal

def dpuPushXferSymbol (xfer : DpuXfer) : SetKind → Except DpuError CopyJob
  | .ranks => matrixJob symbol symbolOffset length xfer
  | .dpu enabled => dpuCopySymbolDpu symbol symbolOffset length enabled xfer
  | .other => .error .internal

/-- The transfers of a host to and from a symbol. -/
inductive Request
  | copyTo (set : SetKind)
  | copyFrom (set : SetKind)
  | pushXfer (set : SetKind) (xfer : DpuXfer)
  | broadcastTo (set : SetKind)

/-- The job that a transfer enqueues on each rank. -/
def Request.job : Request → Except DpuError CopyJob
  | .copyTo set => dpuBroadcastToSymbol symbol symbolOffset length set
  | .copyFrom set => dpuCopyFrom symbol symbolOffset length set
  | .pushXfer set xfer => dpuPushXferSymbol symbol symbolOffset length xfer set
  | .broadcastTo set => dpuBroadcastToSymbol symbol symbolOffset length set

end Requests

/-- `verify_wram_access`: the status that it returns, if it does. -/
def verifyWramAccess (o s wramSize : BitVec 32) : Option DpuError :=
  if s = 0#32 then some .ok
  else if wramSize ≤ o ∨ wramSize < o + s then some .invalidWramAccess
  else none

/-- `verify_iram_access` on operands of 32 bits. -/
def verifyIramAccess (o s : BitVec 32) (iramSize : BitVec 16) : Option DpuError :=
  if s = 0#32 then some .ok
  else if iramSize.setWidth 32 ≤ o ∨ iramSize.setWidth 32 < o + s then some .invalidIramAccess
  else none

/-- `verify_iram_access` on operands of 16 bits, which are promoted. -/
def verifyIramAccess16 (o s iramSize : BitVec 16) : Option DpuError :=
  verifyIramAccess (o.setWidth 32) (s.setWidth 32) iramSize

/-- What becomes of a copy: a status, or a call of the backend with an offset and a size. -/
inductive Outcome
  | returned (status : DpuError)
  | backend (memory : Memory) (offset size : BitVec 32)

/-- The case of a copy in `dpu_thread_compute_job`. -/
def dpuThreadComputeJob (rank : Rank) (memories : Memories) (job : CopyJob) : Outcome :=
  match job.memory, job.kind with
  | .wram, _ =>
    match verifyWramAccess job.address job.length memories.wramSize with
    | some status => .returned status
    | none => .backend .wram job.address job.length
  | .iram, .toRank =>
    match verifyIramAccess16 (job.address.truncate 16) (job.length.truncate 16) memories.iramSize with
    | some status => .returned status
    | none => .backend .iram ((job.address.truncate 16).setWidth 32) ((job.length.truncate 16).setWidth 32)
  | .iram, _ =>
    match verifyIramAccess job.address job.length memories.iramSize with
    | some status => .returned status
    | none => .backend .iram job.address job.length
  | .mram, .fromMatrix =>
    match dpuCopyFromMrams job.address job.length rank with
    | .error status => .returned status
    | .ok _ => .backend .mram job.address job.length
  | .mram, _ =>
    match dpuCopyToMrams job.address job.length rank with
    | .error status => .returned status
    | .ok _ => .backend .mram job.address job.length

/-- A transfer, as it ends on a rank. -/
def transfer (rank : Rank) (memories : Memories) (symbol : DpuSymbol) (symbolOffset : BitVec 32)
    (length : BitVec 64) (request : Request) : Outcome :=
  match request.job symbol symbolOffset length with
  | .error status => .returned status
  | .ok job => dpuThreadComputeJob rank memories job

def Outcome.Reaches : Outcome → Prop
  | .returned _ => False
  | .backend .. => True

instance (outcome : Outcome) : Decidable outcome.Reaches :=
  match outcome with
  | .returned _ => isFalse id
  | .backend .. => isTrue trivial

/-- The kind of the job of a transfer, where the set and the direction allow it. -/
def Request.kind : Request → Option JobKind
  | .copyTo .ranks | .broadcastTo .ranks => some .toRank
  | .copyTo (.dpu true) | .broadcastTo (.dpu true) => some .toMatrix
  | .copyFrom (.dpu true) => some .fromMatrix
  | .pushXfer .ranks .toDpu | .pushXfer (.dpu true) .toDpu => some .toMatrix
  | .pushXfer .ranks .fromDpu | .pushXfer (.dpu true) .fromDpu => some .fromMatrix
  | _ => none

/-- The address and the length of a transfer are multiples of what its memory is accessed by. -/
def Aligned (address : BitVec 32) (length : BitVec 64) : Prop :=
  match memorySwitch address with
  | .iram => 8 ∣ address.toNat ∧ 8 ∣ length.toNat
  | .mram => True
  | .wram => 4 ∣ address.toNat ∧ 4 ∣ length.toNat

/-- A range is not empty and starts in a memory, and its end in 32 bits is not behind it. -/
def SeemsWithin (memorySize start size : Nat) : Prop :=
  size ≠ 0 ∧ start < memorySize ∧ (start + size) % 2 ^ 32 ≤ memorySize

/-- The range of a transfer, in the units of its memory and cut off as the
parameters of the job are, seems to be within the memory. -/
def RangeSeemsWithin (rank : Rank) (memories : Memories) (kind : JobKind) (address : BitVec 32)
    (length : BitVec 64) :
    Prop :=
  match memorySwitch address, kind with
  | .iram, .toRank =>
    SeemsWithin memories.iramSize.toNat (address.toNat / 8 % 2 ^ 16) (length.toNat / 8 % 2 ^ 16)
  | .iram, _ => SeemsWithin memories.iramSize.toNat (address.toNat % 2 ^ 31 / 8) (length.toNat / 8 % 2 ^ 32)
  | .mram, _ => 8 ∣ length.toNat ∧ 8 ∣ (address &&& ~~~ MRAM_MASK).toNat ∧
      (address &&& ~~~ MRAM_MASK).toNat < rank.description.mramSize.toNat ∧
      ((address &&& ~~~ MRAM_MASK).toNat + length.toNat) % 2 ^ 32 ≤ rank.description.mramSize.toNat ∧
      rank.runContext.nbDpuRunning = 0
  | .wram, _ => SeemsWithin memories.wramSize.toNat (address.toNat / 4) (length.toNat / 4 % 2 ^ 32)

/-- The offset and the length wrap round to an end within the symbol, and
nothing behind the check of the symbol refuses the transfer. -/
structure SlipsThrough (rank : Rank) (memories : Memories) (symbol : DpuSymbol) (symbolOffset : BitVec 32)
    (length : BitVec 64) (request : Request) : Prop where
  wraps : 2 ^ 64 ≤ symbolOffset.toNat + length.toNat
  wrapped : symbolOffset.toNat + length.toNat - 2 ^ 64 ≤ symbol.size.toNat
  aligned : Aligned (symbol.address + symbolOffset) length
  accepted : ∃ kind, request.kind = some kind ∧
    RangeSeemsWithin rank memories kind (symbol.address + symbolOffset) length

section Checks
variable {symbol : DpuSymbol} {symbolOffset : BitVec 32} {length : BitVec 64} {address : BitVec 32}

theorem refuseIf_eq_none {refused : Prop} [Decidable refused] {status : DpuError} {rest : Option DpuError} :
    (if refused then some status else rest) = none ↔ ¬refused ∧ rest = none := by
  by_cases refused <;> simp [*]

theorem alignMask_eq_zero_iff {w : Nat} {x : BitVec w} {mask : BitVec w} {align : Nat}
    (low : mask.toNat = 2 ^ align - 1) : x &&& mask = 0#w ↔ 2 ^ align ∣ x.toNat := by
  rw [← BitVec.toNat_inj, BitVec.toNat_and, low, Nat.and_two_pow_sub_one_eq_mod, BitVec.toNat_zero,
    Nat.dvd_iff_mod_eq_zero]

theorem checkSymbol_eq_none : checkSymbol symbol symbolOffset length = none ↔
    (symbolOffset.toNat + length.toNat) % 2 ^ 64 ≤ symbol.size.toNat ∧
      Aligned (symbol.address + symbolOffset) length := by
  have bound : ¬symbol.size.setWidth 64 < symbolOffset.setWidth 64 + length ↔
      (symbolOffset.toNat + length.toNat) % 2 ^ 64 ≤ symbol.size.toNat := by
    rw [BitVec.not_lt, BitVec.le_def, BitVec.toNat_add, BitVec.toNat_setWidth_of_le (by decide),
      BitVec.toNat_setWidth_of_le (by decide)]
  have eight (x : BitVec 32) : x &&& ~~~ ALIGN_MASK IRAM_ALIGN = 0#32 ↔ 8 ∣ x.toNat :=
    @alignMask_eq_zero_iff 32 x _ 3 rfl
  have eightLong : length &&& (~~~ ALIGN_MASK IRAM_ALIGN).setWidth 64 = 0#64 ↔ 8 ∣ length.toNat :=
    @alignMask_eq_zero_iff 64 length _ 3 rfl
  have four (x : BitVec 32) : x &&& ~~~ ALIGN_MASK WRAM_ALIGN = 0#32 ↔ 4 ∣ x.toNat :=
    @alignMask_eq_zero_iff 32 x _ 2 rfl
  have fourLong : length &&& (~~~ ALIGN_MASK WRAM_ALIGN).setWidth 64 = 0#64 ↔ 4 ∣ length.toNat :=
    @alignMask_eq_zero_iff 64 length _ 2 rfl
  rw [← bound, checkSymbol, Aligned]
  by_cases beyond : symbol.size.setWidth 64 < symbolOffset.setWidth 64 + length
  · simp [beyond]
  · rw [and_iff_right beyond]
    rw [if_neg beyond]
    cases memorySwitch (symbol.address + symbolOffset) with
    | iram => simp only [ne_eq, refuseIf_eq_none, not_not, eight, eightLong, and_true]
    | mram => simp
    | wram => simp only [ne_eq, refuseIf_eq_none, not_not, four, fourLong, and_true]

theorem matrixJob_eq_ok {xfer : DpuXfer} {job : CopyJob} : matrixJob symbol symbolOffset length xfer = .ok job ↔
    checkSymbol symbol symbolOffset length = none ∧
      ∃ kind, (Request.pushXfer .ranks xfer).kind = some kind ∧
      copyJob kind (symbol.address + symbolOffset) length = job := by
  cases checked : checkSymbol symbol symbolOffset length with
  | some status => simp [matrixJob, checked]
  | none => cases xfer <;> simp [matrixJob, checked, Request.kind]

/-- A transfer enqueues jobs exactly when the symbol is checked and the set and the direction allow it. -/
theorem Request.job_eq_ok {request : Request} {job : CopyJob} : request.job symbol symbolOffset length = .ok job ↔
    checkSymbol symbol symbolOffset length = none ∧
      ∃ kind, request.kind = some kind ∧ copyJob kind (symbol.address + symbolOffset) length = job := by
  have forRanks : dpuBroadcastToSymbolForRanks symbol symbolOffset length = .ok job ↔
      checkSymbol symbol symbolOffset length = none ∧
      copyJob .toRank (symbol.address + symbolOffset) length = job := by
    cases checked : checkSymbol symbol symbolOffset length <;> simp [dpuBroadcastToSymbolForRanks, checked]
  rcases request with set | set | ⟨set, _ | _ | _⟩ | set <;> rcases set with _ | ⟨_ | _⟩ | _ <;>
    simp [Request.job, Request.kind, dpuBroadcastToSymbol, dpuCopyFrom, dpuPushXferSymbol,
      dpuCopySymbolDpu, forRanks,
      matrixJob_eq_ok]

end Checks

section Ranges
variable {rank : Rank} {memories : Memories} {address : BitVec 32} {length : BitVec 64}

theorem verifyWramAccess_eq_none {o s wramSize : BitVec 32} :
    verifyWramAccess o s wramSize = none ↔ SeemsWithin wramSize.toNat o.toNat s.toNat := by
  simp [verifyWramAccess, SeemsWithin, refuseIf_eq_none, ← BitVec.toNat_inj, BitVec.lt_def, BitVec.le_def]

theorem verifyIramAccess_eq_none {o s : BitVec 32} {iramSize : BitVec 16} :
    verifyIramAccess o s iramSize = none ↔ SeemsWithin iramSize.toNat o.toNat s.toNat := by
  have wide : (iramSize.setWidth 32).toNat = iramSize.toNat := BitVec.toNat_setWidth_of_le (by decide)
  simp [verifyIramAccess, SeemsWithin, refuseIf_eq_none, ← BitVec.toNat_inj, BitVec.lt_def, BitVec.le_def, wide]

theorem verifyMramAccessOffsetAndSize_eq_ok {o s mramSize : BitVec 32} :
    verifyMramAccessOffsetAndSize o s mramSize = .ok ↔
    8 ∣ s.toNat ∧ 8 ∣ o.toNat ∧ o.toNat < mramSize.toNat ∧ (o.toNat + s.toNat) % 2 ^ 32 ≤ mramSize.toNat := by
  simp only [verifyMramAccessOffsetAndSize, ne_eq, ← BitVec.toNat_inj, BitVec.lt_def, BitVec.le_def,
    BitVec.toNat_add,
    BitVec.toNat_umod, BitVec.toNat_ofNat, Nat.reducePow, Nat.reduceMod]
  split_ifs <;> simp <;> omega

theorem dpuThreadComputeJob_reaches {kind : JobKind} :
    (dpuThreadComputeJob rank memories (copyJob kind address length)).Reaches ↔
      RangeSeemsWithin rank memories kind address length := by
  have iram : ((address &&& ~~~ IRAM_MASK) >>> IRAM_ALIGN).toNat = address.toNat % 2 ^ 31 / 8 := by
    have mask : (~~~ IRAM_MASK).toNat = 2 ^ 31 - 1 := rfl
    rw [BitVec.toNat_ushiftRight, BitVec.toNat_and, mask, Nat.and_two_pow_sub_one_eq_mod, Nat.shiftRight_eq_div_pow]
    rfl
  have eighth : ((length >>> IRAM_ALIGN).truncate 32).toNat = length.toNat / 8 % 2 ^ 32 := by
    rw [BitVec.truncate_eq_setWidth, BitVec.toNat_setWidth, BitVec.toNat_ushiftRight, Nat.shiftRight_eq_div_pow]
    rfl
  have quarter : ((length >>> WRAM_ALIGN).truncate 32).toNat = length.toNat / 4 % 2 ^ 32 := by
    rw [BitVec.truncate_eq_setWidth, BitVec.toNat_setWidth, BitVec.toNat_ushiftRight, Nat.shiftRight_eq_div_pow]
    rfl
  have wram : (address >>> WRAM_ALIGN).toNat = address.toNat / 4 := by
    rw [BitVec.toNat_ushiftRight, Nat.shiftRight_eq_div_pow]
    rfl
  unfold copyJob RangeSeemsWithin
  cases memorySwitch address with
  | wram =>
    rw [← wram, ← quarter, ← verifyWramAccess_eq_none]
    cases verified : verifyWramAccess (address >>> WRAM_ALIGN)
      ((length >>> WRAM_ALIGN).truncate 32) memories.wramSize <;>
      simp only [dpuThreadComputeJob, verified] <;> simp [Outcome.Reaches]
  | iram =>
    cases kind with
    | toRank =>
      have start : ((((address &&& ~~~ IRAM_MASK) >>> IRAM_ALIGN).truncate 16).setWidth 32).toNat =
          address.toNat / 8 % 2 ^ 16 := by
        rw [BitVec.toNat_setWidth_of_le (by decide), BitVec.truncate_eq_setWidth, BitVec.toNat_setWidth, iram]
        omega
      have size : ((((length >>> IRAM_ALIGN).truncate 32).truncate 16).setWidth 32).toNat =
          length.toNat / 8 % 2 ^ 16 := by
        rw [BitVec.toNat_setWidth_of_le (by decide), BitVec.truncate_eq_setWidth, BitVec.toNat_setWidth, eighth]
        omega
      dsimp only
      rw [← start, ← size, ← verifyIramAccess_eq_none]
      simp only [dpuThreadComputeJob, verifyIramAccess16]
      split <;> simp_all [Outcome.Reaches]
    | toMatrix | fromMatrix =>
      dsimp only
      rw [← iram, ← eighth, ← verifyIramAccess_eq_none]
      simp only [dpuThreadComputeJob]
      split <;> simp_all [Outcome.Reaches]
  | mram =>
    have size : (length.truncate 32).toNat = length.toNat % 2 ^ 32 := BitVec.toNat_setWidth ..
    have verified :=
      @verifyMramAccessOffsetAndSize_eq_ok (address &&& ~~~ MRAM_MASK)
        (length.truncate 32) rank.description.mramSize
    have eighthOf : 8 ∣ length.toNat % 2 ^ 32 ↔ 8 ∣ length.toNat := by omega
    rw [size, eighthOf, Nat.add_mod_mod] at verified
    have reaches :
        (dpuThreadComputeJob rank memories ⟨kind, .mram, address &&& ~~~ MRAM_MASK, length.truncate 32⟩).Reaches ↔
        verifyMramAccessOffsetAndSize (address &&& ~~~ MRAM_MASK)
          (length.truncate 32) rank.description.mramSize = .ok ∧
          rank.runContext.nbDpuRunning = 0 := by
      by_cases accepted :
          verifyMramAccessOffsetAndSize (address &&& ~~~ MRAM_MASK)
          (length.truncate 32) rank.description.mramSize = .ok
      · by_cases idle : rank.runContext.nbDpuRunning = 0
        · cases byDpu : rank.description.mramAccessByDpuOnly <;> cases kind <;>
            simp [dpuThreadComputeJob, dpuCopyToMrams, dpuCopyFromMrams, accepted, idle, byDpu, Outcome.Reaches]
        · cases kind <;>
            simp [dpuThreadComputeJob, dpuCopyToMrams, dpuCopyFromMrams, accepted, Nat.pos_of_ne_zero idle, idle,
              Outcome.Reaches]
      · cases kind <;> simp [dpuThreadComputeJob, dpuCopyToMrams, dpuCopyFromMrams, accepted, Outcome.Reaches]
    rw [reaches, verified]
    tauto

/-- A transfer calls the backend exactly when the symbol, the set and the range are accepted. -/
theorem transfer_reaches {symbol : DpuSymbol} {symbolOffset : BitVec 32} {request : Request} :
    (transfer rank memories symbol symbolOffset length request).Reaches ↔
      ((symbolOffset.toNat + length.toNat) % 2 ^ 64 ≤ symbol.size.toNat ∧
        Aligned (symbol.address + symbolOffset) length) ∧
      ∃ kind, request.kind = some kind ∧
      RangeSeemsWithin rank memories kind (symbol.address + symbolOffset) length := by
  rw [← checkSymbol_eq_none, transfer]
  cases enqueued : request.job symbol symbolOffset length with
  | error status =>
    refine iff_of_false id ?_
    rintro ⟨checked, kind, allowed, _⟩
    have ok := Request.job_eq_ok.mpr ⟨checked, kind, allowed, rfl⟩
    rw [enqueued] at ok
    cases ok
  | ok job =>
    obtain ⟨checked, kind, allowed, rfl⟩ := Request.job_eq_ok.mp enqueued
    simp [checked, allowed, dpuThreadComputeJob_reaches]

end Ranges

/-- What a range in 32 bits has to be for its bound to be checked: it does not
wrap round, or it starts behind the memory anyway. -/
theorem seemsWithin_iff {memorySize start size : Nat} (memory : memorySize < 2 ^ 32)
    (inWord : size < 2 ^ 32) :
    (SeemsWithin memorySize start size → start + size ≤ memorySize) ↔ start + size < 2 ^ 32 ∨
      memorySize ≤ start := by
  unfold SeemsWithin
  omega

/-- A transfer reaches the backend only within its symbol unless it slips
through, and the checks behind accept a range only within the memory unless it
wraps round. The operands of 16 bits never do. -/
theorem bounds_checked_iff (rank : Rank) (memories : Memories) (symbol : DpuSymbol) (symbolOffset : BitVec 32)
    (length : BitVec 64) (request : Request) :
    (((transfer rank memories symbol symbolOffset length request).Reaches →
          symbolOffset.toNat + length.toNat ≤ symbol.size.toNat) ↔
        ¬SlipsThrough rank memories symbol symbolOffset length request) ∧
    (∀ o s wramSize, (verifyWramAccess o s wramSize = none → o.toNat + s.toNat ≤ wramSize.toNat) ↔
      o.toNat + s.toNat < 2 ^ 32 ∨ wramSize.toNat ≤ o.toNat) ∧
    (∀ o s iramSize, (verifyIramAccess o s iramSize = none → o.toNat + s.toNat ≤ iramSize.toNat) ↔
      o.toNat + s.toNat < 2 ^ 32 ∨ iramSize.toNat ≤ o.toNat) ∧
    (∀ o s iramSize, verifyIramAccess16 o s iramSize = none → o.toNat + s.toNat ≤ iramSize.toNat) ∧
    ∀ o s mramSize, s ≠ 0#32 →
      ((verifyMramAccessOffsetAndSize o s mramSize = .ok → o.toNat + s.toNat ≤ mramSize.toNat) ↔
        o.toNat + s.toNat < 2 ^ 32 ∨ mramSize.toNat ≤ o.toNat ∨ ¬(8 ∣ o.toNat ∧ 8 ∣ s.toNat)) := by
  refine ⟨?_, fun o s wramSize => ?_, fun o s iramSize => ?_, fun o s iramSize => ?_, fun o s mramSize _ => ?_⟩
  · rw [transfer_reaches]
    constructor
    · rintro bounded ⟨wraps, wrapped, aligned, accepted⟩
      have inside := bounded ⟨⟨by omega, aligned⟩, accepted⟩
      omega
    · rintro stopped ⟨⟨within, aligned⟩, accepted⟩
      by_contra beyond
      exact stopped ⟨by omega, by omega, aligned, accepted⟩
  · rw [verifyWramAccess_eq_none]
    exact seemsWithin_iff wramSize.isLt s.isLt
  · rw [verifyIramAccess_eq_none]
    exact seemsWithin_iff (iramSize.isLt.trans (by decide)) s.isLt
  · rw [verifyIramAccess16, verifyIramAccess_eq_none, BitVec.toNat_setWidth_of_le (by decide),
      BitVec.toNat_setWidth_of_le (by decide)]
    exact (seemsWithin_iff (by omega) (by omega)).mpr (.inl (by omega))
  · rw [verifyMramAccessOffsetAndSize_eq_ok]
    omega

/-- A copy of `2 ^ 64 - 8` bytes to offset 8 of a symbol of 8 bytes reaches the backend. -/
theorem wrappedLength_reaches :
    ¬((∀ rank memories symbol symbolOffset length request,
        (transfer rank memories symbol symbolOffset length request).Reaches →
          symbolOffset.toNat + length.toNat ≤ symbol.size.toNat) ∧
      (∀ o s wramSize, verifyWramAccess o s wramSize = none → o.toNat + s.toNat ≤ wramSize.toNat) ∧
      (∀ o s iramSize, verifyIramAccess o s iramSize = none → o.toNat + s.toNat ≤ iramSize.toNat) ∧
      ∀ o s mramSize, s ≠ 0#32 → verifyMramAccessOffsetAndSize o s mramSize = .ok →
        o.toNat + s.toNat ≤ mramSize.toNat) := by
  rintro ⟨bounded, _⟩
  have reached := bounded (MramAccess.dpuOnlyRank 1 (by decide)) ⟨4096#16, 16384#32⟩ ⟨0#32, 8#32⟩ 8#32
    0xFFFFFFFFFFFFFFF8#64 (.copyTo (.dpu true)) (by decide)
  revert reached
  decide

end Upmem.SymbolBounds
