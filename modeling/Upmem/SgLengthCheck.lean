import Upmem.SgHandler

namespace Upmem.Sg

/-- The bytes of some blocks in exact arithmetic. -/
def totalBytes (blocks : List SgBlockInfo) : Nat := (blocks.map fun binfo => binfo.length.toNat).sum

@[simp] theorem totalBytes_cons (binfo : SgBlockInfo) (rest : List SgBlockInfo) :
    totalBytes (binfo :: rest) = binfo.length.toNat + totalBytes rest := rfl

/-- Whether every block with bytes starts below the length, where the sum of
the blocks before it keeps its 32 lowest bits only. -/
def StartsBelow (length : Nat) : Nat → List SgBlockInfo → Prop
  | _, [] => True
  | sum, binfo :: rest =>
    (binfo.length ≠ 0#32 → sum % 2 ^ 32 < length) ∧ StartsBelow length (sum + binfo.length.toNat) rest

/-- The blocks are counted without wrapping round, or they do not end at the
length and, counted in 32 bits, do not seem to either. -/
def CountedExactly (length : Nat) (blocks : List SgBlockInfo) : Prop :=
  totalBytes blocks < 2 ^ 32 ∨
    totalBytes blocks ≠ length ∧ ¬(totalBytes blocks % 2 ^ 32 = length ∧ StartsBelow length 0 blocks)

theorem lengthMatches_iff {length : BitVec 64} {nrBytes : BitVec 32} {sum : Nat} {blocks : List SgBlockInfo}
    (counted : nrBytes.toNat = sum % 2 ^ 32) :
    LengthMatches length nrBytes blocks ↔
      (sum + totalBytes blocks) % 2 ^ 32 = length.toNat ∧ StartsBelow length.toNat sum blocks := by
  have wide (nrBytes : BitVec 32) : (nrBytes.setWidth 64).toNat = nrBytes.toNat :=
    BitVec.toNat_setWidth_of_le (by decide)
  induction blocks generalizing nrBytes sum with
  | nil =>
    simp [LengthMatches, StartsBelow, totalBytes, BitVec.toNat_eq, wide, counted]
  | cons binfo rest ih =>
    have next : (nrBytes + binfo.length).toNat = (sum + binfo.length.toNat) % 2 ^ 32 := by
      rw [BitVec.toNat_add, counted, Nat.mod_add_mod]
    rw [LengthMatches, StartsBelow, totalBytes_cons, ← Nat.add_assoc, BitVec.lt_def, wide, counted]
    exact (and_congr_right' (ih next)).trans and_left_comm

/-- Blocks that are counted without wrapping round start below their own total. -/
theorem startsBelow_of_total {length sum : Nat} {blocks : List SgBlockInfo}
    (below : sum + totalBytes blocks < 2 ^ 32)
    (reached : sum + totalBytes blocks ≤ length) : StartsBelow length sum blocks := by
  induction blocks generalizing sum with
  | nil => trivial
  | cons binfo rest ih =>
    rw [totalBytes_cons, ← Nat.add_assoc] at below reached
    refine ⟨fun some => ?_, ih below reached⟩
    have positive : 0 < binfo.length.toNat := Nat.pos_of_ne_zero fun zero => some (BitVec.eq_of_toNat_eq zero)
    exact (Nat.mod_le ..).trans_lt (by omega)

theorem lengthMatches_exact_iff (length : BitVec 64) (blocks : List SgBlockInfo) :
    (LengthMatches length 0#32 blocks ↔ totalBytes blocks = length.toNat) ↔ CountedExactly length.toNat blocks := by
  rw [@lengthMatches_iff length 0#32 0 blocks rfl, Nat.zero_add, CountedExactly]
  by_cases small : totalBytes blocks < 2 ^ 32
  · rw [Nat.mod_eq_of_lt small, iff_true_right (Or.inl small)]
    exact and_iff_left_of_imp fun total => startsBelow_of_total (by omega) (by omega)
  · have wrapped : totalBytes blocks % 2 ^ 32 < 2 ^ 32 := Nat.mod_lt _ (by decide)
    constructor
    · intro exactly
      refine .inr ⟨fun total => ?_, fun accepted => ?_⟩
      · have same := (exactly.mpr total).1
        omega
      · have same := exactly.mp accepted
        omega
    · rintro (small' | ⟨differ, rejected⟩)
      · exact absurd small' small
      · exact iff_of_false rejected differ

section Turn
variable {args : SgXferCallbackArgs} {dpuIndex index left blockIndex : Nat} {nrBytes : BitVec 32} {locals : Locals}
  {blocks : List SgBlockInfo}

/-- Where the blocks fit in the pool, only their lengths decide how the turn of
a DPU ends, and it leaves the entries of other DPUs alone. -/
theorem addBlocks_given (valid : args.xfer ≠ .other) (checked : args.disableLengthCheck = false)
    (given : ∀ i, args.getBlock dpuIndex (blockIndex + i) = blocks[i]?) (enough : blocks.length ≤ left)
    (room : (locals.pool index).blocks.length + blocks.length ≤ (locals.pool index).maxNrBlocks) :
    ((addBlocks args dpuIndex index left blockIndex nrBytes locals).1 = .ok ↔
      LengthMatches args.length nrBytes blocks) ∧
      ∀ other, other ≠ index →
        (addBlocks args dpuIndex index left blockIndex nrBytes locals).2.pool other = locals.pool other := by
  induction blocks generalizing left blockIndex nrBytes locals with
  | nil =>
    have answer : args.getBlock dpuIndex blockIndex = none := given 0
    rw [LengthMatches]
    by_cases total : nrBytes.setWidth 64 = args.length
    · cases left <;> simp [addBlocks, answer, checked, total]
    · cases left <;> simp [addBlocks, answer, checked, total]
  | cons binfo rest ih =>
    obtain ⟨left, rfl⟩ := Nat.exists_eq_succ_of_ne_zero (Nat.ne_zero_of_lt enough)
    have answer : args.getBlock dpuIndex blockIndex = some binfo := given 0
    have later : ∀ i, args.getBlock dpuIndex (blockIndex + 1 + i) = rest[i]? := fun i => by
      rw [Nat.add_assoc, Nat.add_comm 1, given, List.getElem?_cons_succ]
    rw [List.length_cons] at enough room
    rw [LengthMatches]
    by_cases empty : binfo.length = 0#32
    · have step : addBlocks args dpuIndex index (left + 1) blockIndex nrBytes locals =
          addBlocks args dpuIndex index left (blockIndex + 1) nrBytes locals := by
        simp [addBlocks, answer, empty]
      have rest := @ih left (blockIndex + 1) nrBytes locals later (by omega) (by omega)
      simpa [step, empty] using rest
    · by_cases late : args.length ≤ nrBytes.setWidth 64
      · have ended : addBlocks args dpuIndex index (left + 1) blockIndex nrBytes locals = (.sgLengthMismatch,
            locals) := by
          simp [addBlocks, answer, empty, checked, late]
        rw [ended]
        refine ⟨iff_of_false DpuError.noConfusion fun matched => ?_, fun _ _ => rfl⟩
        exact BitVec.not_lt.mpr late (matched.1 empty)
      · have below : ¬(locals.pool index).maxNrBlocks ≤ (locals.pool index).blocks.length := by omega
        have step : addBlocks args dpuIndex index (left + 1) blockIndex nrBytes locals =
            addBlocks args dpuIndex index left (blockIndex + 1) (nrBytes + binfo.length)
              (locals.append index [binfo]) := by
          simp [addBlocks, answer, empty, checked, late, valid, dpuTransferMatrixAddDpuBlock, below, Locals.append]
        have still : ((locals.append index [binfo]).pool index).blocks.length + rest.length ≤
            ((locals.append index [binfo]).pool index).maxNrBlocks := by
          simp only [Locals.append, Function.update_self, List.length_append, List.length_singleton]
          omega
        obtain ⟨matched, others⟩ := @ih left (blockIndex + 1) (nrBytes + binfo.length) _ later (by omega) still
        rw [step, matched, and_iff_right fun _ => BitVec.not_le.mp late]
        exact ⟨Iff.rfl, fun other differ => (others other differ).trans (Locals.append_pool_of_ne differ _)⟩

end Turn

/-- The blocks of the DPUs are finite lists for which the pool has room. -/
def GivenWithin (args : SgXferCallbackArgs) (lists : Nat → List SgBlockInfo) (pool : SgBufferPool)
    (dpus : List (Nat × Nat)) : Prop :=
  ∀ dpu ∈ dpus, (∀ blockIndex, args.getBlock dpu.2 blockIndex = (lists dpu.2)[blockIndex]?) ∧
    (pool dpu.1).blocks.length + (lists dpu.2).length ≤ (pool dpu.1).maxNrBlocks

/-- Whether the turn of a DPU in the loop of the handler ends well. -/
def acceptsBlocks (args : SgXferCallbackArgs) (pool : SgBufferPool) (dpu : Nat × Nat) : Prop :=
  (addBlocks args dpu.2 dpu.1 (pool dpu.1).maxNrBlocks 0 0#32 ⟨pool, fun _ => false⟩).1 = .ok

theorem acceptsBlocks_iff {args : SgXferCallbackArgs} {lists : Nat → List SgBlockInfo} {pool : SgBufferPool}
    {dpus : List (Nat × Nat)} {dpu : Nat × Nat} (valid : args.xfer ≠ .other)
    (checked : args.disableLengthCheck = false)
    (given : GivenWithin args lists pool dpus) (member : dpu ∈ dpus) :
    acceptsBlocks args pool dpu ↔ LengthMatches args.length 0#32 (lists dpu.2) := by
  obtain ⟨answers, room⟩ := given dpu member
  exact (addBlocks_given valid checked (by simpa using answers) (by omega) room).1

/-- The loop over the DPUs ends well exactly when the lengths match for each. -/
theorem addDpus_given {args : SgXferCallbackArgs} {lists : Nat → List SgBlockInfo} {locals : Locals}
    {dpus : List (Nat × Nat)} (valid : args.xfer ≠ .other) (checked : args.disableLengthCheck = false)
    (distinct : (dpus.map Prod.fst).Nodup) (given : GivenWithin args lists locals.pool dpus) :
    (addDpus args dpus locals).1 = .ok ↔ ∀ dpu ∈ dpus, LengthMatches args.length 0#32 (lists dpu.2) := by
  induction dpus generalizing locals with
  | nil => simp [addDpus]
  | cons dpu rest ih =>
    obtain ⟨index, dpuIndex⟩ := dpu
    obtain ⟨fresh, distinct⟩ := List.nodup_cons.mp distinct
    obtain ⟨⟨answers, room⟩, later⟩ := List.forall_mem_cons.mp given
    dsimp only at room
    obtain ⟨matched, others⟩ :=
      @addBlocks_given args dpuIndex index (locals.pool index).maxNrBlocks 0 0#32 locals _ valid
      checked (by simpa using answers) (by omega) room
    rw [List.forall_mem_cons, ← matched, addDpus]
    dsimp only
    by_cases accepted : (addBlocks args dpuIndex index (locals.pool index).maxNrBlocks 0 0#32 locals).1 = .ok
    · rw [if_neg (not_not.mpr accepted), and_iff_right accepted]
      refine ih distinct fun dpu member => ?_
      have differ : dpu.1 ≠ index := fun same => fresh (List.mem_map.mpr ⟨dpu, member, same⟩)
      rw [others dpu.1 differ]
      exact later dpu member
    · rw [if_pos accepted]
      exact iff_of_false accepted fun both => accepted both.1

/-- The handler hands a transfer on exactly when it accepts the blocks of every
DPU. For a DPU this agrees with the exact sum of the lengths of its blocks if
and only if they are counted exactly. -/
theorem sgXferRankHandler_accepts_iff {rank : SgRank} {copied : SgTransfer → DpuError} {args : SgXferCallbackArgs}
    {pool : SgBufferPool} {lists : Nat → List SgBlockInfo} (enabled : rank.sgXferEnabled = true)
    (direction : args.xfer ≠ .other) (checked : args.disableLengthCheck = false)
    (given : GivenWithin args lists pool rank.dpus) :
    ((sgXferRankHandler rank copied args pool).transfer.isSome ↔ ∀ dpu ∈ rank.dpus, acceptsBlocks args pool dpu) ∧
      ∀ dpu ∈ rank.dpus, (acceptsBlocks args pool dpu ↔ totalBytes (lists dpu.2) = args.length.toNat) ↔
        CountedExactly args.length.toNat (lists dpu.2) := by
  have turn {dpu : Nat × Nat} (member : dpu ∈ rank.dpus) := acceptsBlocks_iff direction checked given member
  have loop := @addDpus_given args lists ⟨pool, fun _ => false⟩ rank.dpus direction checked rank.dpus_nodup given
  have all : (addDpus args rank.dpus ⟨pool, fun _ => false⟩).1 = .ok ↔ ∀ dpu ∈ rank.dpus,
      acceptsBlocks args pool dpu :=
    loop.trans (forall₂_congr fun dpu member => (turn member).symm)
  refine ⟨?_, fun dpu member => ?_⟩
  · rw [← all, sgXferRankHandler]
    by_cases accepted : (addDpus args rank.dpus ⟨pool, fun _ => false⟩).1 = .ok
    · simp only [enabled, accepted, direction]
      simp
      split <;> rfl
    · simp [enabled, accepted]
  · rw [turn member]
    exact lengthMatches_exact_iff args.length (lists dpu.2)

def threeBlocks : List SgBlockInfo := [⟨4096, 8#32⟩, ⟨8192, 16#32⟩, ⟨4096, 8#32⟩]

def threeBlocksArgs : SgXferCallbackArgs :=
  { oneBlockArgs with getBlock := fun _ blockIndex => threeBlocks[blockIndex]?, length := 32#64 }

theorem sgXferRankHandler_accepts_threeBlocks :
    (sgXferRankHandler oneDpuRank (fun _ => .ok) threeBlocksArgs (sgBufferPoolCreate 3)).transfer.isSome := by
  have given : GivenWithin threeBlocksArgs (fun _ => threeBlocks) (sgBufferPoolCreate 3) oneDpuRank.dpus :=
    fun _ _ => ⟨fun _ => rfl, le_rfl⟩
  have counted : CountedExactly 32 threeBlocks := .inl (by decide)
  obtain ⟨handed, accepts⟩ := @sgXferRankHandler_accepts_iff oneDpuRank (fun _ => .ok) threeBlocksArgs
    (sgBufferPoolCreate 3) (fun _ => threeBlocks) rfl DpuXfer.noConfusion rfl given
  exact handed.mpr fun dpu member => ((accepts dpu member).mpr counted).mpr (by decide)

/-- Blocks of more than `2 ^ 32` bytes, whose lengths sum up to 16 in 32 bits. -/
def wrappingBlocks : List SgBlockInfo := [⟨4096, 8#32⟩, ⟨4096, 0xFFFFFFFC#32⟩, ⟨4096, 12#32⟩]

def wrappingArgs : SgXferCallbackArgs :=
  { oneBlockArgs with getBlock := fun _ blockIndex => wrappingBlocks[blockIndex]?, length := 16#64 }

/-- The handler hands on these blocks as a transfer of 16 bytes. -/
theorem wrappingBlocks_accepted :
    ¬∀ rank copied args pool lists, rank.sgXferEnabled = true → args.xfer ≠ .other →
      args.disableLengthCheck = false →
      GivenWithin args lists pool rank.dpus →
        ((sgXferRankHandler rank copied args pool).transfer.isSome ↔
          ∀ dpu ∈ rank.dpus, totalBytes (lists dpu.2) = args.length.toNat) := by
  intro exactly
  have given : GivenWithin wrappingArgs (fun _ => wrappingBlocks) (sgBufferPoolCreate 3) oneDpuRank.dpus :=
    fun _ _ => ⟨fun _ => rfl, le_rfl⟩
  have sums := exactly oneDpuRank (fun _ => .ok) wrappingArgs _ _ rfl DpuXfer.noConfusion rfl given
  simp only [sgXferRankHandler, oneDpuRank_dpus] at sums
  revert sums
  decide

end Upmem.Sg
