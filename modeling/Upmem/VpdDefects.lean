import Upmem.EnabledSet
import Upmem.Repair
import Upmem.VpdRuns

namespace Upmem
open Codec Vpd

def DPU_INVALID_RANK_INDEX : BitVec 8 := 255#8

/-- `add_faulty_memory_address`. -/
def addFaultyMemoryAddress (repairInfo : MemoryRepair) (address : BitVec 16) (faultyBits : BitVec 64) :
    MemoryRepair :=
  let previous := repairInfo.nrOfCorruptedAddresses
  let known := (List.range (min previous NB_MAX_REPAIR_ADDR)).find? fun index =>
    (repairInfo.corruptedAddresses index).address == address.setWidth 32
  let index := known.getD previous
  { nrOfCorruptedAddresses := if known.isSome then previous else previous + 1
    corruptedAddresses :=
      if index < NB_MAX_REPAIR_ADDR then
        Function.update repairInfo.corruptedAddresses index
          ⟨address.setWidth 32, (repairInfo.corruptedAddresses index).faultyBits ||| faultyBits⟩
      else repairInfo.corruptedAddresses }

/-- The repair of a DPU with the defect of an entry. -/
def Dpu.addDefect (dpu : Dpu) (entry : RepairEntry) : Dpu :=
  if entry.isIram then { dpu with iramRepair := addFaultyMemoryAddress dpu.iramRepair entry.address entry.bits }
  else
    { dpu with
      wramRepair := Function.update dpu.wramRepair entry.bank.toNat
        (addFaultyMemoryAddress (dpu.wramRepair entry.bank.toNat) entry.address entry.bits) }

/-- `DPU_INDEX` of the DPU of an entry, which is also its bit in the mask of the reader. -/
def Rank.entryIndex (rank : Rank) (entry : RepairEntry) : Nat := rank.nrDpusPerCi * entry.ci.toNat + entry.dpu.toNat

/-- The change of the DPU at an index of `rank->dpus`. -/
def Rank.addDefect (rank : Rank) (entry : RepairEntry) : Rank :=
  { rank with
    dpus := fun ci dpu =>
      if rank.nrDpusPerCi * ci + dpu = rank.entryIndex entry ∧ dpu < rank.nrDpusPerCi then
        (rank.dpus ci dpu).addDefect entry
      else rank.dpus ci dpu }

/-- The state of the loop over the entries. -/
structure RepairLoop where
  rank : Rank
  repairCnt : BitVec 16
  disabledMask : BitVec 64

/-- One round. There is none when it reads an entry that the file structure does not have, or a DPU or a bank of
WRAM that the rank does not have. -/
def repairRound (vpd : DpuVpd) (rankIndex : BitVec 8) (loop : RepairLoop) (i : Nat) : Option RepairLoop :=
  let repairCnt := loop.repairCnt + 1#16
  if NB_MAX_REPAIR ≤ i then none
  else
    let entry := vpd.repairEntries i
    if entry.rank ≠ rankIndex then some { loop with repairCnt := repairCnt }
    else if loop.rank.nrCis * loop.rank.nrDpusPerCi ≤ loop.rank.entryIndex entry then none
    else if !entry.isIram ∧ NR_OF_WRAM_BANKS ≤ entry.bank.toNat then none
    else
      some {
        rank := loop.rank.addDefect entry
        repairCnt := repairCnt
        disabledMask := loop.disabledMask ||| 1#64 <<< loop.rank.entryIndex entry }

/-- The bits of the mask that are for a control interface. -/
def disabledMaskForCi (nrDpus : Nat) (disabledMask : BitVec 64) (eachCi : Nat) : DpuSelectedMask :=
  (disabledMask >>> (nrDpus * eachCi) &&& 0xFF#64).setWidth 32

def dpuMaskDifference (mask₁ mask₂ : DpuBitfield) : DpuBitfield := mask₁ &&& ~~~mask₂

/-- The last loop, over the control interfaces. -/
def Rank.updateEnabledDpus (rank : Rank) (disabledMask : BitVec 64) : Rank :=
  let nrDpus := rank.nrDpusPerCi
  { rank with
    sliceInfo := fun eachCi =>
      if eachCi < rank.nrCis then
        let disabled := disabledMaskForCi nrDpus disabledMask eachCi
        let enabledDpus := (rank.sliceInfo eachCi).enabledDpus &&&
          (dpuMaskDifference (dpuMaskAll nrDpus) (disabled.setWidth 8)).setWidth 32
        { rank.sliceInfo eachCi with
          enabledDpus := enabledDpus
          allDpusAreEnabled :=
            dpuMaskIntersection (enabledDpus.setWidth 8) (dpuMaskAll nrDpus) == dpuMaskAll nrDpus }
      else rank.sliceInfo eachCi }

def Rank.repairRequested (rank : Rank) : Bool := rank.description.doIramRepair || rank.description.doWramRepair

/-- The loop over the entries, when a repair is requested. -/
def repairLoop (vpd : DpuVpd) (rankIndex : BitVec 8) (rank : Rank) : Option RepairLoop :=
  if rank.repairRequested then
    (List.range vpd.header.repairCount.toNat).foldlM (repairRound vpd rankIndex) ⟨rank, 0#16, 0#64⟩
  else some ⟨rank, vpd.header.repairCount, 0#64⟩

/-- What follows it. -/
def RepairLoop.finish (loop : RepairLoop) (header : Header) (rankIndex : BitVec 8) : Option (DpuError × Rank) :=
  if loop.repairCnt ≠ header.repairCount then some (.vpdInvalidFile, loop.rank)
  else if inside : rankIndex.toNat < VPD_MAX_RANK then
    some (.ok,
      loop.rank.updateEnabledDpus (loop.disabledMask ||| (header.ranks ⟨rankIndex.toNat, inside⟩).dpuDisabled))
  else none

/-- How many whole entries follow the header of a file. -/
def nrFileEntries (bytes : List Byte) : Nat := (bytes.length - headerCodec.size) / repairEntryCodec.size

/-- `dpu_vpd_init` stores no entry outside of the structure. -/
def initInside (vpdPath : VpdPath) (vpd : DpuVpd) : Bool :=
  match vpdPath with
  | .file bytes =>
    decide (vpd.header.repairCount = VPD_UNDEFINED_REPAIR_COUNT) || decide (nrFileEntries bytes ≤ NB_MAX_REPAIR)
  | _ => true

/-- `fill_sram_repairs_and_update_enabled_dpus`, with the rank index of sysfs, the path of the VPD when the rank has
one, and what the structure on the stack holds before. There is no result when it leaves an array. -/
def fillSramRepairsAndUpdateEnabledDpus (rank : Rank) (rankIndex : BitVec 8) (vpdPath : Option VpdPath)
    (stack : DpuVpd) :
    Option (DpuError × Rank) :=
  if rankIndex = DPU_INVALID_RANK_INDEX then some (.system, rank)
  else
    match vpdPath with
    | none => some (.system, rank)
    | some vpdPath =>
      match dpuVpdInit vpdPath stack with
      | (.ok, vpd) =>
        if !initInside vpdPath vpd then none
        else if vpd.header.repairCount = VPD_UNDEFINED_REPAIR_COUNT then some (.vpdNoRepair, rank)
        else (repairLoop vpd rankIndex rank).bind fun loop => loop.finish vpd.header rankIndex
      | (_, _) => some (.vpdInvalidFile, rank)

/-- The entries of a file. -/
def fileEntries (bytes : List Byte) : List RepairEntry :=
  decodeAll repairEntryCodec (nrFileEntries bytes) (bytes.drop headerCodec.size)

theorem readEntries_eq (fuel : Nat) (bytes : List Byte) (enough : bytes.length / repairEntryCodec.size ≤ fuel)
    (entries : Nat → RepairEntry) (k i : Nat) :
    readEntries fuel bytes entries k (k + i) =
      (decodeAll repairEntryCodec (bytes.length / repairEntryCodec.size) bytes)[i]?.getD (entries (k + i)) := by
  have size : repairEntryCodec.size = 16 := rfl
  induction fuel generalizing bytes entries k i with
  | zero =>
    rw [Nat.le_zero.mp enough]
    rfl
  | succ fuel ih =>
    rw [readEntries]
    split
    · rename_i short
      rw [Nat.div_eq_of_lt short]
      rfl
    · rename_i long
      have rest : bytes.length / repairEntryCodec.size =
          (bytes.drop repairEntryCodec.size).length / repairEntryCodec.size + 1 := by
        rw [size] at long
        rw [List.length_drop, size]
        omega
      rw [rest, decodeAll]
      cases i with
      | zero => rw [readEntries_below _ _ _ (by omega), Nat.add_zero, Function.update_self]; rfl
      | succ i =>
        have next :=
          ih (bytes.drop repairEntryCodec.size) (by rw [rest] at enough; exact Nat.le_of_succ_le_succ enough)
          (Function.update entries k (repairEntryCodec.decode (bytes.take repairEntryCodec.size))) (k + 1) i
        rw [show k + (i + 1) = k + 1 + i by omega, next, Function.update_of_ne (by omega), List.getElem?_cons_succ]

/-- The entries that a count of the header is for: those of the file, then what the stack held. -/
def countedEntry (bytes : List Byte) (stack : DpuVpd) (i : Nat) : RepairEntry :=
  (fileEntries bytes)[i]?.getD (stack.repairEntries i)

/-- The header of a file. -/
def fileHeader (bytes : List Byte) : Header := headerCodec.decode (bytes.take headerCodec.size)

theorem dpuVpdInit_file {bytes : List Byte} {stack vpd : DpuVpd}
    (accepted : dpuVpdInit (.file bytes) stack = (.ok, vpd)) :
    vpd.header = fileHeader bytes ∧ (vpd.header.repairCount ≠ VPD_UNDEFINED_REPAIR_COUNT →
      ∀ i, vpd.repairEntries i = countedEntry bytes stack i) := by
  simp only [dpuVpdInit] at accepted
  split at accepted
  · cases accepted
  split at accepted
  · cases accepted
  split at accepted
  · cases accepted
  split at accepted
  · cases accepted
    refine ⟨rfl, fun _ i => ?_⟩
    have read := readEntries_eq bytes.length (bytes.drop headerCodec.size)
      ((Nat.div_le_self _ _).trans (by rw [List.length_drop]; omega)) stack.repairEntries 0 i
    rw [Nat.zero_add, List.length_drop] at read
    exact read
  · rename_i undefined
    cases accepted
    exact ⟨rfl, fun defined => absurd defined undefined⟩

/-- A round for an entry stays in the arrays of the rank. -/
def EntryInside (rank : Rank) (rankIndex : BitVec 8) (entry : RepairEntry) : Prop :=
  entry.rank = rankIndex → rank.entryIndex entry < rank.nrCis * rank.nrDpusPerCi ∧
    (entry.isIram = true ∨ entry.bank.toNat < NR_OF_WRAM_BANKS)

/-- A bit that the reader takes from an entry. -/
def EntryBit (rank : Rank) (rankIndex : BitVec 8) (entry : RepairEntry) (bit : Nat) : Prop :=
  entry.rank = rankIndex ∧ rank.entryIndex entry = bit

/-- What the rounds keep of the rank, and the bits they add. -/
structure RepairLoop.Follows (before after : RepairLoop) (bits : Nat → Prop) : Prop where
  description : after.rank.description = before.rank.description
  sliceInfo : after.rank.sliceInfo = before.rank.sliceInfo
  mask : ∀ bit < 64, after.disabledMask.getLsbD bit = true ↔ before.disabledMask.getLsbD bit = true ∨ bits bit

section Rounds
variable {vpd : DpuVpd} {rankIndex : BitVec 8}

theorem repairRound_some {loop : RepairLoop} {i : Nat} (inside : i < NB_MAX_REPAIR)
    (entryInside : EntryInside loop.rank rankIndex (vpd.repairEntries i)) :
    ∃ after, repairRound vpd rankIndex loop i = some after ∧ after.repairCnt = loop.repairCnt + 1#16 ∧
      loop.Follows after (EntryBit loop.rank rankIndex (vpd.repairEntries i)) := by
  rw [repairRound, if_neg (by omega)]
  by_cases sameRank : (vpd.repairEntries i).rank = rankIndex
  · obtain ⟨index, bank⟩ := entryInside sameRank
    have banked :
        ¬((!(vpd.repairEntries i).isIram) = true ∧ NR_OF_WRAM_BANKS ≤ (vpd.repairEntries i).bank.toNat) := by
      rintro ⟨wram, tooLarge⟩
      rcases bank with iram | under
      · simp [iram] at wram
      · omega
    simp only [sameRank, ne_eq, not_true_eq_false, if_false, if_neg (Nat.not_le.mpr index), if_neg banked]
    refine ⟨_, rfl, rfl, rfl, rfl, fun bit small => ?_⟩
    have shifted : (1#64 <<< loop.rank.entryIndex (vpd.repairEntries i)).getLsbD bit = true ↔
        loop.rank.entryIndex (vpd.repairEntries i) = bit := by
      rw [BitVec.getLsbD_shiftLeft, BitVec.getLsbD_one]
      simp only [small, decide_true, Bool.true_and, Bool.and_eq_true, Bool.not_eq_true', decide_eq_false_iff_not,
        decide_eq_true_eq]
      omega
    rw [BitVec.getLsbD_or, Bool.or_eq_true, shifted, EntryBit]
    simp [sameRank]
  · simp only [sameRank, ne_eq, not_false_eq_true, if_true]
    exact ⟨_, rfl, rfl, rfl, rfl, fun bit _ => by simp [EntryBit, sameRank]⟩

theorem repairRound_none {loop : RepairLoop} {i : Nat}
    (outside : ¬(i < NB_MAX_REPAIR ∧ EntryInside loop.rank rankIndex (vpd.repairEntries i))) :
    repairRound vpd rankIndex loop i = none := by
  simp only [repairRound]
  split_ifs with past otherRank index bank
  · rfl
  · exact absurd ⟨by omega, fun sameRank => absurd sameRank otherRank⟩ outside
  · rfl
  · rfl
  · refine absurd ⟨by omega, fun _ => ⟨by omega, ?_⟩⟩ outside
    cases iram : (vpd.repairEntries i).isIram with
    | true => exact Or.inl rfl
    | false => exact Or.inr (by simpa [iram] using bank)

theorem entryInside_congr {rank rank' : Rank} (same : rank'.description = rank.description) (entry : RepairEntry) :
    EntryInside rank' rankIndex entry ↔ EntryInside rank rankIndex entry := by
  simp only [EntryInside, Rank.entryIndex, Rank.nrDpusPerCi, Rank.nrCis, same]

theorem entryBit_congr {rank rank' : Rank} (same : rank'.description = rank.description) (entry : RepairEntry)
    (bit : Nat) :
    EntryBit rank' rankIndex entry bit ↔ EntryBit rank rankIndex entry bit := by
  simp only [EntryBit, Rank.entryIndex, Rank.nrDpusPerCi, same]

theorem repairRounds_some (rounds : List Nat) (loop : RepairLoop) (inside : ∀ i ∈ rounds, i < NB_MAX_REPAIR)
    (entriesInside : ∀ i ∈ rounds, EntryInside loop.rank rankIndex (vpd.repairEntries i)) :
    ∃ after, rounds.foldlM (repairRound vpd rankIndex) loop = some after ∧
      after.repairCnt = loop.repairCnt + BitVec.ofNat 16 rounds.length ∧
      loop.Follows after fun bit => ∃ i ∈ rounds, EntryBit loop.rank rankIndex (vpd.repairEntries i) bit := by
  induction rounds generalizing loop with
  | nil => exact ⟨loop, rfl, by simp, rfl, rfl, fun bit _ => by simp⟩
  | cons i rounds ih =>
    rw [List.forall_mem_cons] at inside entriesInside
    obtain ⟨next, round, count, follows⟩ := repairRound_some inside.1 entriesInside.1
    obtain ⟨after, rest, counts, followsRest⟩ := ih next inside.2 fun j member =>
      (entryInside_congr follows.description _).mpr (entriesInside.2 j member)
    refine ⟨after, ?_, ?_, followsRest.description.trans follows.description,
      followsRest.sliceInfo.trans follows.sliceInfo, fun bit small => ?_⟩
    · rw [List.foldlM_cons, round]
      exact rest
    · rw [counts, count, List.length_cons, BitVec.add_assoc]
      congr 1
      exact BitVec.eq_of_toNat_eq (by simp; omega)
    · rw [followsRest.mask bit small, follows.mask bit small]
      simp only [entryBit_congr follows.description, List.mem_cons, exists_eq_or_imp]
      exact or_assoc

theorem repairRounds_none (rounds : List Nat) {loop : RepairLoop}
    (outside : ¬∀ i ∈ rounds, i < NB_MAX_REPAIR ∧ EntryInside loop.rank rankIndex (vpd.repairEntries i)) :
    rounds.foldlM (repairRound vpd rankIndex) loop = none := by
  induction rounds generalizing loop with
  | nil => exact absurd (fun i member => by cases member) outside
  | cons i rounds ih =>
    rw [List.foldlM_cons]
    by_cases first : i < NB_MAX_REPAIR ∧ EntryInside loop.rank rankIndex (vpd.repairEntries i)
    · obtain ⟨next, round, _, follows⟩ := repairRound_some first.1 first.2
      rw [round]
      refine ih fun others => outside (List.forall_mem_cons.mpr ⟨first, fun j member => ?_⟩)
      exact ⟨(others j member).1, (entryInside_congr follows.description _).mp (others j member).2⟩
    · rw [repairRound_none first]
      rfl

end Rounds

section Masks
variable {rank : Rank}

theorem disabledMaskForCi_getLsbD {nrDpus ci dpu : Nat} (small : nrDpus ≤ 8) (inside : dpu < nrDpus)
    (mask : BitVec 64) :
    ((disabledMaskForCi nrDpus mask ci).setWidth 8).getLsbD dpu = mask.getLsbD (nrDpus * ci + dpu) := by
  have low : (0xFF#64).getLsbD dpu = true := by
    have below : dpu < 8 := by omega
    interval_cases dpu <;> rfl
  simp only [disabledMaskForCi, BitVec.getLsbD_setWidth, BitVec.getLsbD_and, BitVec.getLsbD_ushiftRight, low,
    Bool.and_true, show dpu < 8 by omega, show dpu < 32 by omega, decide_true, Bool.true_and]

variable (disabledMask : BitVec 64) {ci : Nat} (inside : ci < rank.nrCis)
include inside

theorem updateEnabledDpus_getLsbD (i : Nat) :
    ((rank.updateEnabledDpus disabledMask).sliceInfo ci).enabledDpus.getLsbD i = true ↔
      i < rank.nrDpusPerCi ∧ (rank.sliceInfo ci).enabledDpus.getLsbD i = true ∧
        disabledMask.getLsbD (rank.nrDpusPerCi * ci + i) = false := by
  have small := rank.nrDpusPerCi_le
  simp only [Rank.updateEnabledDpus, if_pos inside, dpuMaskDifference]
  rw [BitVec.getLsbD_and, BitVec.getLsbD_setWidth, BitVec.getLsbD_and, BitVec.getLsbD_not, dpuMaskAll_getLsbD small]
  by_cases below : i < rank.nrDpusPerCi
  · rw [disabledMaskForCi_getLsbD small below]
    simp [below, show i < 32 by omega, show i < 8 by omega]
  · simp [below]

theorem updateEnabledDpus_all :
    ((rank.updateEnabledDpus disabledMask).sliceInfo ci).allDpusAreEnabled = true ↔
      ∀ i < rank.nrDpusPerCi,
      ((rank.updateEnabledDpus disabledMask).sliceInfo ci).enabledDpus.getLsbD i = true := by
  have small := rank.nrDpusPerCi_le
  have recorded : ((rank.updateEnabledDpus disabledMask).sliceInfo ci).allDpusAreEnabled =
      (dpuMaskIntersection (((rank.updateEnabledDpus disabledMask).sliceInfo ci).enabledDpus.setWidth 8)
        (dpuMaskAll rank.nrDpusPerCi) == dpuMaskAll rank.nrDpusPerCi) := by
    simp only [Rank.updateEnabledDpus, if_pos inside]
  rw [recorded, beq_iff_eq]
  generalize ((rank.updateEnabledDpus disabledMask).sliceInfo ci).enabledDpus = enabled
  constructor
  · intro same i below
    have bit := congrArg (BitVec.getLsbD · i) same
    simp only [dpuMaskIntersection, BitVec.getLsbD_and, dpuMaskAll_getLsbD small, below, decide_true, Bool.and_true,
      BitVec.getLsbD_setWidth, show i < 8 by omega, Bool.true_and] at bit
    exact bit
  · intro all
    refine BitVec.eq_of_getLsbD_eq fun i byte => ?_
    simp only [dpuMaskIntersection, BitVec.getLsbD_and, dpuMaskAll_getLsbD small, BitVec.getLsbD_setWidth, byte,
      decide_true, Bool.true_and]
    by_cases below : i < rank.nrDpusPerCi
    · simp [below, all i below]
    · simp [below]

end Masks

/-- The defects of a rank are applied to its DPUs: those that `dpu_vpd_disable_dpu`
wrote, and those of the entries. -/
def DefectsApplied (rank after : Rank) (rankIndex : BitVec 8) (dpuDisabled : BitVec 64)
    (entries : List RepairEntry) :
    Prop :=
  ∀ ci < rank.nrCis,
    (∀ dpu, ((after.sliceInfo ci).enabledDpus.getLsbD dpu = true ↔
      dpu < rank.nrDpusPerCi ∧ (rank.sliceInfo ci).enabledDpus.getLsbD dpu = true ∧
        dpuDisabled.getLsbD (ci * DPU_MAX_NR_DPUS_PER_CI + dpu) = false ∧
          ¬∃ entry ∈ entries, entry.rank = rankIndex ∧ entry.ci.toNat = ci ∧ entry.dpu.toNat = dpu)) ∧
    ((after.sliceInfo ci).allDpusAreEnabled = true ↔
      ∀ dpu < rank.nrDpusPerCi, (after.sliceInfo ci).enabledDpus.getLsbD dpu = true)

/-- The entries of a VPD that count for a rank. -/
def VpdPath.entries (vpdPath : VpdPath) (rank : Rank) : List RepairEntry :=
  match vpdPath with
  | .file bytes =>
    if rank.repairRequested then (fileEntries bytes).take (fileHeader bytes).repairCount.toNat else []
  | _ => []

/-- The result is an error, or the arrays were not left and the defects of the VPD are applied. -/
def ResultApplies (rank : Rank) (rankIndex : BitVec 8) (vpdPath : Option VpdPath) : Option (DpuError × Rank) → Prop
  | none => False
  | some (.ok, after) =>
    ∃ bytes, vpdPath = some (.file bytes) ∧ ∃ inside : rankIndex.toNat < VPD_MAX_RANK,
      DefectsApplied rank after rankIndex ((fileHeader bytes).ranks ⟨rankIndex.toNat, inside⟩).dpuDisabled
        (VpdPath.entries (.file bytes) rank)
  | some (_, _) => True

def FillApplies (rank : Rank) (rankIndex : BitVec 8) (vpdPath : Option VpdPath) (stack : DpuVpd) : Prop :=
  ResultApplies rank rankIndex vpdPath (fillSramRepairsAndUpdateEnabledDpus rank rankIndex vpdPath stack)

/-- The condition on a file whose count of entries is defined: the entries are in the arrays, and each enabled DPU
has the same bit in the layout of the reader as in that of the writer. -/
structure LayoutsAgree (rank : Rank) (rankIndex : BitVec 8) (bytes : List Byte) (stack : DpuVpd) : Prop where
  file : nrFileEntries bytes ≤ NB_MAX_REPAIR
  inRank : rankIndex.toNat < VPD_MAX_RANK
  entries : rank.repairRequested = true → ∀ i < (fileHeader bytes).repairCount.toNat,
    i < NB_MAX_REPAIR ∧ EntryInside rank rankIndex (countedEntry bytes stack i)
  bits : ∀ ci < rank.nrCis, ∀ dpu < rank.nrDpusPerCi, (rank.sliceInfo ci).enabledDpus.getLsbD dpu = true →
    ((((fileHeader bytes).ranks ⟨rankIndex.toNat, inRank⟩).dpuDisabled.getLsbD (rank.nrDpusPerCi * ci +
        dpu) = true ∨ (rank.repairRequested = true ∧ ∃ i < (fileHeader bytes).repairCount.toNat,
          EntryBit rank rankIndex (countedEntry bytes stack i) (rank.nrDpusPerCi * ci + dpu))) ↔
      (((fileHeader bytes).ranks ⟨rankIndex.toNat, inRank⟩).dpuDisabled.getLsbD (ci * DPU_MAX_NR_DPUS_PER_CI +
        dpu) = true ∨
        ∃ entry ∈ VpdPath.entries (.file bytes) rank,
          entry.rank = rankIndex ∧ entry.ci.toNat = ci ∧ entry.dpu.toNat = dpu))

/-- The mask of the reader is right exactly when it has the bit of each enabled DPU as the layout of the writer and
the entries say. -/
theorem defectsApplied_iff {rank loopRank : Rank} (description : loopRank.description = rank.description)
    (sliceInfo : loopRank.sliceInfo = rank.sliceInfo) (disabledMask : BitVec 64) (rankIndex : BitVec 8)
    (dpuDisabled : BitVec 64) (entries : List RepairEntry) :
    DefectsApplied rank (loopRank.updateEnabledDpus disabledMask) rankIndex dpuDisabled entries ↔
      ∀ ci < rank.nrCis, ∀ dpu < rank.nrDpusPerCi, (rank.sliceInfo ci).enabledDpus.getLsbD dpu = true →
        (disabledMask.getLsbD (rank.nrDpusPerCi * ci + dpu) = true ↔
          (dpuDisabled.getLsbD (ci * DPU_MAX_NR_DPUS_PER_CI + dpu) = true ∨
            ∃ entry ∈ entries, entry.rank = rankIndex ∧ entry.ci.toNat = ci ∧ entry.dpu.toNat = dpu)) := by
  have nrCis : loopRank.nrCis = rank.nrCis := by simp only [Rank.nrCis, description]
  have nrDpus : loopRank.nrDpusPerCi = rank.nrDpusPerCi := by simp only [Rank.nrDpusPerCi, description]
  have bit (ci : Nat) (inside : ci < rank.nrCis) (dpu : Nat) :
      ((loopRank.updateEnabledDpus disabledMask).sliceInfo ci).enabledDpus.getLsbD dpu = true ↔
        dpu < rank.nrDpusPerCi ∧ (rank.sliceInfo ci).enabledDpus.getLsbD dpu = true ∧
          disabledMask.getLsbD (rank.nrDpusPerCi * ci + dpu) = false := by
    rw [updateEnabledDpus_getLsbD disabledMask (nrCis ▸ inside) dpu, nrDpus, sliceInfo]
  have all (ci : Nat) (inside : ci < rank.nrCis) :=
    updateEnabledDpus_all disabledMask (nrCis ▸ inside : ci < loopRank.nrCis)
  rw [nrDpus] at all
  constructor
  · intro applied ci inside dpu below enabled
    have kept := (bit ci inside dpu).symm.trans ((applied ci inside).1 dpu)
    simp only [below, enabled, true_and] at kept
    rw [← Bool.not_eq_true, ← Bool.not_eq_true, ← not_or] at kept
    exact not_iff_not.mp kept
  · intro agree ci inside
    refine ⟨fun dpu => (bit ci inside dpu).trans ?_, all ci inside⟩
    refine and_congr_right fun below => and_congr_right fun enabled => ?_
    rw [← Bool.not_eq_true, ← Bool.not_eq_true, ← not_or]
    exact not_congr (agree ci inside dpu below enabled)

section Fill
variable {rank : Rank} {rankIndex : BitVec 8} {bytes : List Byte} {stack vpd : DpuVpd}
  (valid : rankIndex ≠ DPU_INVALID_RANK_INDEX) (accepted : dpuVpdInit (.file bytes) stack = (.ok, vpd))
  (defined : (fileHeader bytes).repairCount ≠ VPD_UNDEFINED_REPAIR_COUNT)
include valid accepted defined

theorem fill_eq :
    fillSramRepairsAndUpdateEnabledDpus rank rankIndex (some (.file bytes)) stack =
      if NB_MAX_REPAIR < nrFileEntries bytes then none
      else (repairLoop vpd rankIndex rank).bind fun loop => loop.finish (fileHeader bytes) rankIndex := by
  have header := (dpuVpdInit_file accepted).1
  simp only [fillSramRepairsAndUpdateEnabledDpus, if_neg valid, accepted, initInside, header, defined, decide_false,
    Bool.false_or, if_false]
  by_cases long : NB_MAX_REPAIR < nrFileEntries bytes
  · rw [decide_eq_false (Nat.not_le.mpr long), if_pos long]
    rfl
  · rw [decide_eq_true (Nat.not_lt.mp long), if_neg long]
    rfl

omit valid accepted defined in
/-- The end of the function, after a loop that counted the entries and collected their bits. -/
theorem finish_applies_iff (short : nrFileEntries bytes ≤ NB_MAX_REPAIR) {loop : RepairLoop}
    (count : loop.repairCnt = (fileHeader bytes).repairCount)
    (description : loop.rank.description = rank.description) (sliceInfo : loop.rank.sliceInfo = rank.sliceInfo)
    (mask : ∀ bit < 64, loop.disabledMask.getLsbD bit = true ↔ (rank.repairRequested = true ∧
      ∃ i < (fileHeader bytes).repairCount.toNat, EntryBit rank rankIndex (countedEntry bytes stack i) bit))
    (entries : rank.repairRequested = true → ∀ i < (fileHeader bytes).repairCount.toNat,
      i < NB_MAX_REPAIR ∧ EntryInside rank rankIndex (countedEntry bytes stack i)) :
    ResultApplies rank rankIndex (some (.file bytes)) (loop.finish (fileHeader bytes) rankIndex) ↔
      LayoutsAgree rank rankIndex bytes stack := by
  rw [RepairLoop.finish, if_neg (not_not.mpr count)]
  by_cases inRank : rankIndex.toNat < VPD_MAX_RANK
  · rw [dif_pos inRank]
    have bits := defectsApplied_iff description sliceInfo
      (loop.disabledMask ||| ((fileHeader bytes).ranks ⟨rankIndex.toNat, inRank⟩).dpuDisabled) rankIndex
      ((fileHeader bytes).ranks ⟨rankIndex.toNat, inRank⟩).dpuDisabled (VpdPath.entries (.file bytes) rank)
    have small := rank.nrDpusPerCi_le
    have cis : rank.nrCis ≤ 8 := rank.description.topology.cis_le
    have reader (ci : Nat) (inside : ci < rank.nrCis) (dpu : Nat) (below : dpu < rank.nrDpusPerCi) :
        rank.nrDpusPerCi * ci + dpu < 64 := by
      have product : rank.nrDpusPerCi * ci ≤ 8 * 7 := Nat.mul_le_mul small (by omega)
      omega
    constructor
    · rintro ⟨bytes', same, _, applied⟩
      cases same
      refine ⟨short, inRank, entries, fun ci inside dpu below enabled => ?_⟩
      rw [← bits.mp applied ci inside dpu below enabled, BitVec.getLsbD_or, Bool.or_eq_true,
        mask _ (reader ci inside dpu below)]
      exact or_comm
    · intro agree
      refine ⟨bytes, rfl, inRank, bits.mpr fun ci inside dpu below enabled => ?_⟩
      rw [← agree.bits ci inside dpu below enabled, BitVec.getLsbD_or, Bool.or_eq_true,
        mask _ (reader ci inside dpu below)]
      exact or_comm
  · rw [dif_neg inRank]
    exact ⟨fun impossible => impossible.elim, fun agree => absurd agree.inRank inRank⟩

theorem fillApplies_file_iff :
    FillApplies rank rankIndex (some (.file bytes)) stack ↔ LayoutsAgree rank rankIndex bytes stack := by
  have header := (dpuVpdInit_file accepted).1
  have entryOf := (dpuVpdInit_file accepted).2 (header ▸ defined)
  rw [FillApplies, fill_eq valid accepted defined]
  by_cases long : NB_MAX_REPAIR < nrFileEntries bytes
  · rw [if_pos long]
    exact ⟨fun impossible => impossible.elim, fun agree => absurd agree.file (Nat.not_le.mpr long)⟩
  rw [if_neg long, repairLoop, header]
  by_cases requested : rank.repairRequested = true
  · rw [if_pos requested]
    by_cases inside : ∀ i ∈ List.range (fileHeader bytes).repairCount.toNat,
        i < NB_MAX_REPAIR ∧ EntryInside rank rankIndex (vpd.repairEntries i)
    · obtain ⟨loop, rounds, count, follows⟩ := repairRounds_some
        (List.range (fileHeader bytes).repairCount.toNat) ⟨rank, 0#16, 0#64⟩ (fun i member => (inside i member).1)
        (fun i member => (inside i member).2)
      rw [rounds]
      refine finish_applies_iff (Nat.not_lt.mp long) ?_ follows.description follows.sliceInfo (fun bit small => ?_)
        fun _ i below => entryOf i ▸ inside i (List.mem_range.mpr below)
      · rw [count, List.length_range, BitVec.zero_add, BitVec.ofNat_toNat, BitVec.setWidth_eq]
      · rw [follows.mask bit small]
        simp only [BitVec.getLsbD_zero, Bool.false_eq_true, false_or, requested, true_and, List.mem_range, entryOf]
    · rw [repairRounds_none _ inside]
      refine ⟨fun impossible => impossible.elim, fun agree => absurd (fun i member => ?_) inside⟩
      rw [entryOf]
      exact agree.entries requested i (List.mem_range.mp member)
  · rw [if_neg requested]
    refine finish_applies_iff (Nat.not_lt.mp long) rfl rfl rfl (fun bit _ => ?_) fun positive =>
      absurd positive requested
    simp [requested]

end Fill

/-- The function is right about the defects of a rank exactly when it returns before it reads them, or the two
layouts agree on them. -/
theorem fillApplies_iff (rank : Rank) (rankIndex : BitVec 8) (vpdPath : Option VpdPath) (stack : DpuVpd) :
    FillApplies rank rankIndex vpdPath stack ↔
      (rankIndex ≠ DPU_INVALID_RANK_INDEX → ∀ bytes, vpdPath = some (.file bytes) →
        (dpuVpdInit (.file bytes) stack).1 = .ok → (fileHeader bytes).repairCount ≠ VPD_UNDEFINED_REPAIR_COUNT →
          LayoutsAgree rank rankIndex bytes stack) := by
  by_cases invalid : rankIndex = DPU_INVALID_RANK_INDEX
  · refine ⟨fun _ valid => absurd invalid valid, fun _ => ?_⟩
    simp only [FillApplies, fillSramRepairsAndUpdateEnabledDpus, if_pos invalid]
    trivial
  constructor
  · rintro applied valid bytes rfl accepted defined
    have result : dpuVpdInit (.file bytes) stack = (.ok, (dpuVpdInit (.file bytes) stack).2) :=
      Prod.ext accepted rfl
    exact (fillApplies_file_iff valid result defined).mp applied
  · intro agree
    cases vpdPath with
    | none =>
      simp only [FillApplies, fillSramRepairsAndUpdateEnabledDpus, if_neg invalid]
      trivial
    | some vpdPath =>
      cases vpdPath with
      | null =>
        simp only [FillApplies, fillSramRepairsAndUpdateEnabledDpus, if_neg invalid, dpuVpdInit, initInside]
        trivial
      | absent =>
        simp only [FillApplies, fillSramRepairsAndUpdateEnabledDpus, if_neg invalid, dpuVpdInit]
        trivial
      | file bytes =>
        cases result : dpuVpdInit (.file bytes) stack with
        | mk status vpd =>
          by_cases accepted : status = .ok
          · subst accepted
            by_cases defined : (fileHeader bytes).repairCount = VPD_UNDEFINED_REPAIR_COUNT
            · have header := (dpuVpdInit_file result).1
              simp only [FillApplies, fillSramRepairsAndUpdateEnabledDpus, if_neg invalid, result,
                initInside, header,
                defined, decide_true, Bool.true_or]
              trivial
            · exact (fillApplies_file_iff invalid result defined).mpr
                (agree invalid bytes rfl (congrArg Prod.fst result) defined)
          · simp only [FillApplies, fillSramRepairsAndUpdateEnabledDpus, if_neg invalid, result]
            cases status <;> first | exact absurd rfl accepted | trivial

theorem mem_entries_iff {rank : Rank} {bytes : List Byte} (stack : DpuVpd) (requested : rank.repairRequested = true)
    (complete : (fileHeader bytes).repairCount.toNat ≤ nrFileEntries bytes) (entry : RepairEntry) :
    entry ∈ VpdPath.entries (.file bytes) rank ↔
      ∃ i < (fileHeader bytes).repairCount.toNat, countedEntry bytes stack i = entry := by
  have length : (fileEntries bytes).length = nrFileEntries bytes := length_decodeAll _ _ _
  rw [VpdPath.entries, if_pos requested, List.mem_take_iff_getElem]
  constructor
  · rintro ⟨i, below, rfl⟩
    have inside : i < (fileEntries bytes).length := by omega
    exact ⟨i, by omega, by rw [countedEntry, List.getElem?_eq_getElem inside, Option.getD_some]⟩
  · rintro ⟨i, below, rfl⟩
    have inside : i < (fileEntries bytes).length := by omega
    exact ⟨i, by omega, by rw [countedEntry, List.getElem?_eq_getElem inside, Option.getD_some]⟩

/-- With eight DPUs for each control interface the layouts are the same, so a complete
file is read as it was written. -/
theorem layoutsAgree_of_eight {rank : Rank} {rankIndex : BitVec 8} {bytes : List Byte} {stack : DpuVpd}
    (eight : rank.nrDpusPerCi = 8) (file : nrFileEntries bytes ≤ NB_MAX_REPAIR)
    (inRank : rankIndex.toNat < VPD_MAX_RANK)
    (complete : (fileHeader bytes).repairCount.toNat ≤ nrFileEntries bytes)
    (places : ∀ i < (fileHeader bytes).repairCount.toNat, EntryInside rank rankIndex (countedEntry bytes stack i) ∧
      (countedEntry bytes stack i).dpu.toNat < 8) : LayoutsAgree rank rankIndex bytes stack := by
  refine ⟨file, inRank, fun _ i below => ⟨by omega, (places i below).1⟩, fun ci _ dpu small _ => ?_⟩
  rw [eight] at small
  refine or_congr (by rw [eight, DPU_MAX_NR_DPUS_PER_CI, Nat.mul_comm]) ?_
  by_cases requested : rank.repairRequested = true
  · simp only [requested, true_and, mem_entries_iff stack requested complete]
    constructor
    · rintro ⟨i, below, sameRank, index⟩
      have dpuSmall := (places i below).2
      rw [Rank.entryIndex, eight] at index
      exact ⟨_, ⟨i, below, rfl⟩, sameRank, by omega, by omega⟩
    · rintro ⟨entry, ⟨i, below, rfl⟩, sameRank, rfl, rfl⟩
      exact ⟨i, below, sameRank, rfl⟩
  · simp [requested, VpdPath.entries]

/-- A rank of four control interfaces of four DPUs, all of them enabled. -/
def squareRank : Rank where
  description :=
    { topology := { nrOfControlInterfaces := 4, nrOfDpusPerControlInterface := 4, cis_le := by decide,
                    dpus_le := by decide }
      nrOfThreads := 24, mramSize := 0x4000000#32, mramAccessByDpuOnly := false, apiMustSwitchMramMux := true
      initMramMux := true, doIramRepair := false, doWramRepair := false }
  dpus := fun _ _ =>
    { enabled := true
      iramRepair := { corruptedAddresses := fun _ => ⟨0#32, 0#64⟩, nrOfCorruptedAddresses := 0 }
      wramRepair := fun _ => { corruptedAddresses := fun _ => ⟨0#32, 0#64⟩, nrOfCorruptedAddresses := 0 } }
  nrDpusEnabled := 16
  sliceInfo := fun _ => { hostMuxMramState := 0#8, enabledDpus := 0xF#32, allDpusAreEnabled := true }
  runContext := { dpuRunning := fun _ => 0#8, dpuInFault := fun _ => 0#8, pollStatus := .ok, nbDpuRunning := 0 }

/-- A VPD without entries where the DPU 0 of the control interface 1 of each rank is disabled. -/
def disabledHeader : Header :=
  ⟨VPD_STRUCT_ID, VPD_STRUCT_VERSION, BitVec.ofNat 16 headerCodec.size, 1#8, 0#8, 0#16, 0#16,
    fun _ => ⟨1#64 <<< 8, 0#64, 0#64⟩⟩

/-- The reader takes the bit of that DPU for one of the control interface 2. -/
theorem squareRank_not_fillApplies : ¬FillApplies squareRank 0#8 (some (.file (headerCodec.encode disabledHeader)))
    ⟨disabledHeader, fun _ => iramDefect 0⟩ := by
  have whole : (headerCodec.encode disabledHeader).take headerCodec.size = headerCodec.encode disabledHeader :=
    List.take_of_length_le (le_of_eq (headerCodec.length_encode _))
  have header : fileHeader (headerCodec.encode disabledHeader) = disabledHeader := by
    rw [fileHeader, whole, headerCodec.decode_encode]
  have accepted :
      (dpuVpdInit (.file (headerCodec.encode disabledHeader)) ⟨disabledHeader, fun _ => iramDefect 0⟩).1 = .ok := by
    simp only [dpuVpdInit, headerCodec.length_encode, Nat.lt_irrefl, if_false, whole, headerCodec.decode_encode]
    rfl
  intro applied
  have agree := (fillApplies_file_iff (by decide) (Prod.ext accepted rfl) (by rw [header]; decide)).mp applied
  have bits := agree.bits 1 (by decide) 0 (by decide) (by decide)
  simp only [header] at bits
  have written : (1#64 <<< 8).getLsbD (1 * DPU_MAX_NR_DPUS_PER_CI + 0) = true := by decide
  rcases bits.mpr (Or.inl written) with read | ⟨requested, _⟩
  · have clear : (1#64 <<< 8).getLsbD 4 = false := by decide
    exact absurd (clear.symm.trans read) (by decide)
  · exact absurd requested (by decide)

end Upmem
