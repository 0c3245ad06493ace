import Upmem.Lib.Transitions
import Upmem.DpuSet
import Upmem.MramPaths

namespace Upmem.Sg

/-- `struct sg_block_info`. -/
structure SgBlockInfo where
  addr : Nat
  length : BitVec 32
  deriving DecidableEq

/-- `struct sg_xfer_buffer`: `nr_blocks` is the length of the list, which
`blocks_addr` and `blocks_length` hold up to there. -/
structure SgXferBuffer where
  maxNrBlocks : Nat
  blocks : List SgBlockInfo

/-- `sg_buffer_pool`, by the index of a DPU in a transfer matrix. -/
abbrev SgBufferPool := Nat → SgXferBuffer

inductive DpuXfer
  | toDpu | fromDpu | other
  deriving DecidableEq

/-- `struct sg_xfer_callback_args`. The callback `get_block` is asked once for
each DPU and block, so it is given by its answers. -/
structure SgXferCallbackArgs where
  getBlock : Nat → Nat → Option SgBlockInfo
  xfer : DpuXfer
  symbolAddr : BitVec 32
  length : BitVec 64
  disableLengthCheck : Bool
  freeingRefcpt : BitVec 32
  freed : Bool

def freeCbArgs (args : SgXferCallbackArgs) : SgXferCallbackArgs :=
  { args with freeingRefcpt := args.freeingRefcpt - 1#32, freed := args.freed || args.freeingRefcpt - 1#32 = 0#32 }

/-- The pool and the entries `sg_ptr` of the transfer matrix that have been set. -/
structure Locals where
  pool : SgBufferPool
  sgPtr : Nat → Bool

/-- `dpu_transfer_matrix_add_dpu_block` for a DPU whose `sg_ptr` is set. -/
def dpuTransferMatrixAddDpuBlock (index : Nat) (binfo : SgBlockInfo) (pool : SgBufferPool) :
    DpuError × SgBufferPool :=
  if (pool index).blocks.length ≥ (pool index).maxNrBlocks then (.internal, pool)
  else (.ok, Function.update pool index { pool index with blocks := (pool index).blocks ++ [binfo] })

/-- The loop that adds the blocks of one DPU, from a block index on. The
first argument counts the blocks below the capacity that are left. -/
def addBlocks (args : SgXferCallbackArgs) (dpuIndex index : Nat) :
    Nat → Nat → BitVec 32 → Locals → DpuError × Locals
  | left, blockIndex, nrBytes, locals =>
    match args.getBlock dpuIndex blockIndex, left with
    | none, _ =>
      if !args.disableLengthCheck ∧ nrBytes.setWidth 64 ≠ args.length then (.sgLengthMismatch, locals)
        else (.ok, locals)
    | some _, 0 => (.sgTooManyBlocks, locals)
    | some binfo, left + 1 =>
      if binfo.length ≠ 0#32 ∧ !args.disableLengthCheck ∧ args.length ≤ nrBytes.setWidth 64 then
        (.sgLengthMismatch, locals)
      else if binfo.length = 0#32 then addBlocks args dpuIndex index left (blockIndex + 1) nrBytes locals
      else if args.xfer = .other then (.invalidMemoryTransfer, locals)
      else
        let sgPtr := Function.update locals.sgPtr index true
        let (status, pool) := dpuTransferMatrixAddDpuBlock index binfo locals.pool
        if status ≠ .ok then (status, ⟨pool, sgPtr⟩)
        else addBlocks args dpuIndex index left (blockIndex + 1) (nrBytes + binfo.length) ⟨pool, sgPtr⟩

/-- The loop over the DPUs, each with its index in the matrix and its index in the whole set. -/
def addDpus (args : SgXferCallbackArgs) : List (Nat × Nat) → Locals → DpuError × Locals
  | [], locals => (.ok, locals)
  | (index, dpuIndex) :: rest, locals =>
    let (status, locals) := addBlocks args dpuIndex index (locals.pool index).maxNrBlocks 0 0#32 locals
    if status ≠ .ok then (status, locals) else addDpus args rest locals

/-- A rank with the fields of `api` for scatter/gather transfers. -/
structure SgRank where
  set : SetRank
  dpuOffset : Nat
  sgXferEnabled : Bool

/-- The DPUs that `DPU_FOREACH` visits on the rank, with their two indices. -/
def SgRank.dpus (rank : SgRank) : List (Nat × Nat) :=
  (dpuForeach [rank.set]).map fun ((_, dpuIdx), rankDpuIndex) =>
    (MramAccess.getTransferMatrixIndex rank.set.rank
      (dpuIdx / rank.set.rank.nrDpusPerCi, dpuIdx % rank.set.rank.nrDpusPerCi), rankDpuIndex + rank.dpuOffset)

/-- The transfer matrix at the copy: the blocks of each DPU whose `sg_ptr` is set. -/
structure SgTransfer where
  toDpu : Bool
  offset : BitVec 32
  size : BitVec 32
  blocks : Nat → Option (List SgBlockInfo)

/-- What `sg_xfer_rank_handler` leaves behind. -/
structure HandlerEnd where
  status : DpuError
  pool : SgBufferPool
  args : SgXferCallbackArgs
  transfer : Option SgTransfer

def MRAM_MASK : BitVec 32 := 0x08000000#32

/-- The transfer matrix that the copy is called with. -/
def Locals.transferMatrix (args : SgXferCallbackArgs) (locals : Locals) : SgTransfer where
  toDpu := args.xfer = .toDpu
  offset := args.symbolAddr &&& ~~~ MRAM_MASK
  size := args.length.truncate 32
  blocks := fun index => if locals.sgPtr index then some (locals.pool index).blocks else none

def resetSgBufferPool (dpus : List (Nat × Nat)) (pool : SgBufferPool) : SgBufferPool :=
  dpus.foldl (fun pool dpu => Function.update pool dpu.1 { pool dpu.1 with blocks := [] }) pool

/-- `sg_xfer_rank_handler`, with the status that the copy of the transfer answers. -/
def sgXferRankHandler (rank : SgRank) (copied : SgTransfer → DpuError) (args : SgXferCallbackArgs)
    (pool : SgBufferPool) : HandlerEnd :=
  if !rank.sgXferEnabled then ⟨.sgNotActivated, pool, args, none⟩
  else
    let (status, locals) := addDpus args rank.dpus ⟨pool, fun _ => false⟩
    if status ≠ .ok then ⟨status, locals.pool, args, none⟩
    else if args.xfer = .other then ⟨.invalidMemoryTransfer, locals.pool, args, none⟩
    else
      let transfer := locals.transferMatrix args
      if copied transfer ≠ .ok then ⟨copied transfer, locals.pool, args, some transfer⟩
      else ⟨.ok, resetSgBufferPool rank.dpus locals.pool, freeCbArgs args, some transfer⟩

/-- The blocks that a callback gives, from a block index on, at most `left` and one more. -/
def givenFrom (answers : Nat → Option SgBlockInfo) : Nat → Nat → List SgBlockInfo
  | left, blockIndex =>
    match answers blockIndex, left with
    | none, _ => []
    | some binfo, 0 => [binfo]
    | some binfo, left + 1 => binfo :: givenFrom answers left (blockIndex + 1)

/-- The blocks with bytes among those that are given for a DPU. -/
def givenBlocks (args : SgXferCallbackArgs) (maxNrBlocks dpuIndex : Nat) : List SgBlockInfo :=
  (givenFrom (args.getBlock dpuIndex) maxNrBlocks 0).filter fun binfo => binfo.length ≠ 0#32

/-- Every block with bytes starts before the length is reached and all of them
reach it, the bytes being counted in 32 bits. -/
def LengthMatches (length : BitVec 64) : BitVec 32 → List SgBlockInfo → Prop
  | nrBytes, [] => nrBytes.setWidth 64 = length
  | nrBytes, binfo :: rest =>
    (binfo.length ≠ 0#32 → nrBytes.setWidth 64 < length) ∧ LengthMatches length (nrBytes + binfo.length) rest

/-- The pool and the matrix with blocks added for a DPU. -/
def Locals.append (locals : Locals) (index : Nat) (blocks : List SgBlockInfo) : Locals where
  pool := Function.update locals.pool index
    { locals.pool index with blocks := (locals.pool index).blocks ++ blocks }
  sgPtr := if blocks = [] then locals.sgPtr else Function.update locals.sgPtr index true

@[simp] theorem Locals.append_nil (locals : Locals) (index : Nat) : locals.append index [] = locals := by
  simp [Locals.append]

theorem Locals.append_cons (locals : Locals) (index : Nat) (binfo : SgBlockInfo) (blocks : List SgBlockInfo) :
    (locals.append index [binfo]).append index blocks = locals.append index (binfo :: blocks) := by
  unfold Locals.append
  by_cases empty : blocks = [] <;> simp [empty]

@[simp] theorem Locals.append_maxNrBlocks (locals : Locals) (index other : Nat) (blocks : List SgBlockInfo) :
    ((locals.append index blocks).pool other).maxNrBlocks = (locals.pool other).maxNrBlocks := by
  by_cases same : other = index
  · subst same
    simp [Locals.append]
  · simp [Locals.append, same]

section Blocks
variable {args : SgXferCallbackArgs} {dpuIndex index left blockIndex : Nat} {nrBytes : BitVec 32} {locals : Locals}

/-- The condition under which the loop over the blocks ends well. -/
def BlocksFit (args : SgXferCallbackArgs) (dpuIndex left blockIndex : Nat) (nrBytes : BitVec 32) : Prop :=
  (givenFrom (args.getBlock dpuIndex) left blockIndex).length ≤ left ∧
    (args.disableLengthCheck = false →
      LengthMatches args.length nrBytes (givenFrom (args.getBlock dpuIndex) left blockIndex))

theorem givenFrom_none {answers : Nat → Option SgBlockInfo} (answer : answers blockIndex = none) :
    givenFrom answers left blockIndex = [] := by
  cases left <;> simp [givenFrom, answer]

theorem givenFrom_some {answers : Nat → Option SgBlockInfo} {binfo : SgBlockInfo}
    (answer : answers blockIndex = some binfo) :
    givenFrom answers (left + 1) blockIndex = binfo :: givenFrom answers left (blockIndex + 1) := by
  simp [givenFrom, answer]

theorem addBlocks_none (answer : args.getBlock dpuIndex blockIndex = none) :
    (BlocksFit args dpuIndex left blockIndex nrBytes ∧
        addBlocks args dpuIndex index left blockIndex nrBytes locals = (.ok, locals)) ∨
      (¬BlocksFit args dpuIndex left blockIndex nrBytes ∧
        (addBlocks args dpuIndex index left blockIndex nrBytes locals).1 ≠ .ok) := by
  have fits : BlocksFit args dpuIndex left blockIndex nrBytes ↔
      ¬(args.disableLengthCheck = false ∧ nrBytes.setWidth 64 ≠ args.length) := by
    simp [BlocksFit, givenFrom_none answer, LengthMatches]
  rw [fits]
  by_cases mismatch : args.disableLengthCheck = false ∧ nrBytes.setWidth 64 ≠ args.length
  · exact .inr ⟨not_not.mpr mismatch, by cases left <;> simp [addBlocks, answer, mismatch]⟩
  · exact .inl ⟨mismatch, by cases left <;> simp [addBlocks, answer, mismatch]⟩

/-- The loop over the blocks of a DPU succeeds exactly when they fit, and has then added those with bytes. -/
theorem addBlocks_spec (valid : args.xfer ≠ .other) (room : (locals.pool index).blocks.length ≤ blockIndex)
    (capacity : blockIndex + left = (locals.pool index).maxNrBlocks) :
    (BlocksFit args dpuIndex left blockIndex nrBytes ∧
        addBlocks args dpuIndex index left blockIndex nrBytes locals =
          (.ok, locals.append index
            ((givenFrom (args.getBlock dpuIndex) left blockIndex).filter fun binfo => binfo.length ≠ 0#32))) ∨
      (¬BlocksFit args dpuIndex left blockIndex nrBytes ∧
        (addBlocks args dpuIndex index left blockIndex nrBytes locals).1 ≠ .ok) := by
  induction left generalizing blockIndex nrBytes locals with
  | zero =>
    cases answer : args.getBlock dpuIndex blockIndex with
    | none => simpa [givenFrom_none answer] using addBlocks_none answer
    | some binfo => exact .inr ⟨by simp [BlocksFit, givenFrom, answer], by simp [addBlocks, answer]⟩
  | succ left ih =>
    cases answer : args.getBlock dpuIndex blockIndex with
    | none => simpa [givenFrom_none answer] using addBlocks_none answer
    | some binfo =>
      have fits : BlocksFit args dpuIndex (left + 1) blockIndex nrBytes ↔
          (args.disableLengthCheck = false → binfo.length ≠ 0#32 → nrBytes.setWidth 64 < args.length) ∧
            BlocksFit args dpuIndex left (blockIndex + 1) (nrBytes + binfo.length) := by
        simp only [BlocksFit, givenFrom_some answer, List.length_cons, LengthMatches, Nat.add_le_add_iff_right]
        tauto
      rw [fits]
      by_cases empty : binfo.length = 0#32
      · have step : addBlocks args dpuIndex index (left + 1) blockIndex nrBytes locals =
            addBlocks args dpuIndex index left (blockIndex + 1) nrBytes locals := by
          simp [addBlocks, answer, empty]
        have rest := @ih (blockIndex + 1) nrBytes locals (room.trans (Nat.le_succ _)) (by omega)
        simpa [step, empty, givenFrom_some answer] using rest
      · by_cases late : args.disableLengthCheck = false ∧ args.length ≤ nrBytes.setWidth 64
        · refine .inr ⟨fun both => absurd (both.1 late.1 empty) (BitVec.not_lt.mpr late.2), ?_⟩
          simp [addBlocks, answer, empty, late]
        · have below : ¬(locals.pool index).maxNrBlocks ≤ (locals.pool index).blocks.length := by omega
          have step : addBlocks args dpuIndex index (left + 1) blockIndex nrBytes locals =
              addBlocks args dpuIndex index left (blockIndex + 1) (nrBytes + binfo.length)
                (locals.append index [binfo]) := by
            simp [addBlocks, answer, empty, late, valid, dpuTransferMatrixAddDpuBlock, below, Locals.append]
          have early : args.disableLengthCheck = false → binfo.length ≠ 0#32 → nrBytes.setWidth 64 < args.length :=
            fun checked _ => BitVec.not_le.mp fun reached => late ⟨checked, reached⟩
          have taken : (((locals.append index [binfo]).pool index).blocks).length ≤ blockIndex + 1 := by
            simpa [Locals.append] using room
          have rest := @ih (blockIndex + 1) (nrBytes + binfo.length) (locals.append index [binfo]) taken
            (by rw [Locals.append_maxNrBlocks]; omega)
          rw [Locals.append_cons] at rest
          rw [and_iff_right early]
          simpa [step, empty, givenFrom_some answer] using rest

end Blocks

/-- The locals after the blocks of some DPUs have been added. -/
def Locals.appendAll (args : SgXferCallbackArgs) (locals : Locals) (dpus : List (Nat × Nat)) : Locals :=
  dpus.foldl (fun locals dpu => locals.append dpu.1 (givenBlocks args (locals.pool dpu.1).maxNrBlocks dpu.2)) locals

/-- Every entry of the pool has no blocks. -/
def SgBufferPool.Clean (pool : SgBufferPool) : Prop := ∀ index, (pool index).blocks = []

section Dpus
variable {args : SgXferCallbackArgs} {dpus : List (Nat × Nat)} {locals : Locals}

theorem Locals.append_pool_of_ne {index other : Nat} (differ : other ≠ index) (blocks : List SgBlockInfo) :
    (locals.append index blocks).pool other = locals.pool other := by
  simp [Locals.append, differ]

theorem Locals.append_sgPtr_of_ne {index other : Nat} (differ : other ≠ index) (blocks : List SgBlockInfo) :
    (locals.append index blocks).sgPtr other = locals.sgPtr other := by
  by_cases empty : blocks = [] <;> simp [Locals.append, empty, differ]

/-- From entries without blocks the loop over the DPUs succeeds exactly when the blocks of every DPU fit. -/
theorem addDpus_spec (valid : args.xfer ≠ .other) (distinct : (dpus.map Prod.fst).Nodup)
    (clean : ∀ dpu ∈ dpus, (locals.pool dpu.1).blocks = []) :
    ((∀ dpu ∈ dpus, BlocksFit args dpu.2 (locals.pool dpu.1).maxNrBlocks 0 0#32) ∧
        addDpus args dpus locals = (.ok, locals.appendAll args dpus)) ∨
      ((¬∀ dpu ∈ dpus, BlocksFit args dpu.2 (locals.pool dpu.1).maxNrBlocks 0 0#32) ∧
        (addDpus args dpus locals).1 ≠ .ok) := by
  induction dpus generalizing locals with
  | nil => exact .inl ⟨by simp, rfl⟩
  | cons dpu rest ih =>
    obtain ⟨index, dpuIndex⟩ := dpu
    obtain ⟨fresh, distinct⟩ := List.nodup_cons.mp distinct
    obtain ⟨first, clean⟩ := List.forall_mem_cons.mp clean
    have spec := @addBlocks_spec args dpuIndex index _ 0 0#32 locals valid (by simp [first]) (Nat.zero_add _)
    rcases spec with ⟨fits, added⟩ | ⟨misfit, failed⟩
    · have others : ∀ dpu ∈ rest, dpu.1 ≠ index := by
        intro dpu member same
        have atIndex := List.mem_map_of_mem (f := Prod.fst) member
        exact fresh (same ▸ atIndex)
      have later := @ih (locals.append index (givenBlocks args (locals.pool index).maxNrBlocks dpuIndex)) distinct
        fun dpu member => by rw [Locals.append_pool_of_ne (others dpu member), clean dpu member]
      simp only [Locals.append_maxNrBlocks] at later
      have step : addDpus args ((index, dpuIndex) :: rest) locals =
          addDpus args rest (locals.append index (givenBlocks args (locals.pool index).maxNrBlocks dpuIndex)) := by
        simp [addDpus, added, givenBlocks]
      rw [step, List.forall_mem_cons]
      rcases later with ⟨rest, done⟩ | ⟨misfit, failed⟩
      · exact .inl ⟨⟨fits, rest⟩, done⟩
      · exact .inr ⟨fun both => misfit both.2, failed⟩
    · refine .inr ⟨fun all => misfit (all _ List.mem_cons_self), ?_⟩
      simp [addDpus, failed]

/-- Each DPU of the list gets the blocks given for it, and no other entry changes. -/
theorem Locals.appendAll_spec (distinct : (dpus.map Prod.fst).Nodup)
    (clean : ∀ dpu ∈ dpus, (locals.pool dpu.1).blocks = [])
    (unset : ∀ dpu ∈ dpus, locals.sgPtr dpu.1 = false) :
    (∀ dpu ∈ dpus,
        ((locals.appendAll args dpus).pool dpu.1).blocks = givenBlocks args (locals.pool dpu.1).maxNrBlocks dpu.2 ∧
        ((locals.appendAll args dpus).sgPtr dpu.1 = true ↔
          givenBlocks args (locals.pool dpu.1).maxNrBlocks dpu.2 ≠ [])) ∧
      ∀ index, index ∉ dpus.map Prod.fst →
        (locals.appendAll args dpus).pool index = locals.pool index ∧
          (locals.appendAll args dpus).sgPtr index = locals.sgPtr index := by
  induction dpus generalizing locals with
  | nil => exact ⟨by simp, fun _ _ => ⟨rfl, rfl⟩⟩
  | cons dpu rest ih =>
    obtain ⟨index, dpuIndex⟩ := dpu
    obtain ⟨fresh, distinct⟩ := List.nodup_cons.mp distinct
    obtain ⟨first, clean⟩ := List.forall_mem_cons.mp clean
    obtain ⟨firstUnset, unset⟩ := List.forall_mem_cons.mp unset
    have others : ∀ dpu ∈ rest, dpu.1 ≠ index := by
      intro dpu member same
      have atIndex := List.mem_map_of_mem (f := Prod.fst) member
      exact fresh (same ▸ atIndex)
    obtain ⟨inside, outside⟩ :=
      @ih (locals.append index (givenBlocks args (locals.pool index).maxNrBlocks dpuIndex))
      distinct (fun dpu member => by rw [Locals.append_pool_of_ne (others dpu member), clean dpu member])
      (fun dpu member => by rw [Locals.append_sgPtr_of_ne (others dpu member), unset dpu member])
    have step : locals.appendAll args ((index, dpuIndex) :: rest) =
        (locals.append index (givenBlocks args (locals.pool index).maxNrBlocks dpuIndex)).appendAll args rest := rfl
    rw [step]
    refine ⟨?_, ?_⟩
    · rintro dpu member
      rcases List.mem_cons.mp member with rfl | later
      · rw [(outside index fresh).1, (outside index fresh).2]
        simp only [Locals.append, Function.update_self, first, List.nil_append, true_and]
        by_cases none : givenBlocks args (locals.pool index).maxNrBlocks dpuIndex = []
        · simp [none, firstUnset]
        · simp [none]
      · simpa using inside dpu later
    · intro other notMem
      have differ : other ≠ index := fun same => notMem (same ▸ List.mem_cons_self)
      have absent : other ∉ rest.map Prod.fst := fun member => notMem (List.mem_cons_of_mem _ member)
      rw [(outside other absent).1, (outside other absent).2]
      exact ⟨Locals.append_pool_of_ne differ _, Locals.append_sgPtr_of_ne differ _⟩

theorem resetSgBufferPool_clean {pool : SgBufferPool}
    (outside : ∀ index, index ∉ dpus.map Prod.fst → (pool index).blocks = []) :
    (resetSgBufferPool dpus pool).Clean := by
  induction dpus generalizing pool with
  | nil => exact fun index => outside index List.not_mem_nil
  | cons dpu rest ih =>
    refine ih fun index absent => ?_
    by_cases same : index = dpu.1
    · simp [same]
    · simpa [same] using outside index (by simpa [same] using absent)

theorem resetSgBufferPool_maxNrBlocks (pool : SgBufferPool) (index : Nat) :
    (resetSgBufferPool dpus pool index).maxNrBlocks = (pool index).maxNrBlocks := by
  induction dpus generalizing pool with
  | nil => rfl
  | cons dpu rest ih =>
    refine (ih _).trans ?_
    by_cases same : index = dpu.1 <;> simp [same]

end Dpus

section Handler
variable {rank : SgRank} {copied : SgTransfer → DpuError} {args : SgXferCallbackArgs} {pool : SgBufferPool}

theorem SgRank.dpus_map_fst (rank : SgRank) :
    rank.dpus.map Prod.fst = (rank.set.rank.enabledFrom 0).map fun dpuIdx =>
    MramAccess.getTransferMatrixIndex rank.set.rank
      (dpuIdx / rank.set.rank.nrDpusPerCi, dpuIdx % rank.set.rank.nrDpusPerCi) := by
  have all : enabledDpus 0 [rank.set] = (rank.set.rank.enabledFrom 0).map (0, ·) := by simp [enabledDpus]
  rw [SgRank.dpus, dpuForeach_eq (oneTopology_single _), all, List.map_map]
  refine List.ext_getElem (by simp) fun i inside _ => ?_
  simp

/-- Two DPUs of a rank have different entries in the pool. -/
theorem SgRank.dpus_nodup (rank : SgRank) : (rank.dpus.map Prod.fst).Nodup := by
  rw [SgRank.dpus_map_fst]
  refine List.Nodup.map_on ?_ ((List.nodup_range').filter _)
  intro dpuIdx member other otherMember same
  have slice (idx : Nat) (member : idx ∈ rank.set.rank.enabledFrom 0) :
      idx / rank.set.rank.nrDpusPerCi < rank.set.rank.nrCis := by
    have below := (List.mem_range'_1.mp (List.mem_filter.mp member).1).2
    have inside : idx < rank.set.rank.nrCis * rank.set.rank.nrDpusPerCi := by
      simpa [Rank.nrDpus] using below
    exact Nat.div_lt_of_lt_mul (by rwa [Nat.mul_comm])
  have first := slice dpuIdx member
  have second := slice other otherMember
  have positive : 0 < rank.set.rank.nrCis := Nat.zero_lt_of_lt first
  simp only [MramAccess.getTransferMatrixIndex] at same
  have slices := congrArg (· % rank.set.rank.nrCis) same
  have members := congrArg (· / rank.set.rank.nrCis) same
  simp only [Nat.mul_add_mod_of_lt first, Nat.mul_add_mod_of_lt second] at slices
  simp only [Nat.add_div_of_dvd_right (Nat.dvd_mul_left _ _), Nat.mul_div_cancel _ positive, Nat.div_eq_of_lt first,
    Nat.div_eq_of_lt second, Nat.add_zero] at members
  rw [← Nat.div_add_mod dpuIdx rank.set.rank.nrDpusPerCi, slices, members, Nat.div_add_mod]

/-- The transfer that carries for each DPU of the rank exactly the blocks given for it. -/
def givenTransfer (rank : SgRank) (args : SgXferCallbackArgs) (maxNrBlocks : Nat) : SgTransfer where
  toDpu := args.xfer = .toDpu
  offset := args.symbolAddr &&& ~~~ MRAM_MASK
  size := args.length.truncate 32
  blocks := fun index =>
    ((rank.dpus.find? fun dpu => dpu.1 = index).map fun dpu => givenBlocks args maxNrBlocks dpu.2).filter
      fun blocks => blocks ≠ []

/-- The arguments of the handler are in order: the rank allows such transfers,
the direction is one of the two, the blocks of every DPU fit and the copy of
the transfer with these blocks succeeds. -/
structure WellAsked (rank : SgRank) (maxNrBlocks : Nat) (copied : SgTransfer → DpuError)
    (args : SgXferCallbackArgs) : Prop where
  enabled : rank.sgXferEnabled = true
  direction : args.xfer ≠ .other
  fits : ∀ dpu ∈ rank.dpus, BlocksFit args dpu.2 maxNrBlocks 0 0#32
  copy : copied (givenTransfer rank args maxNrBlocks) = .ok

/-- The pool of a rank whose entries have a capacity. -/
def SgBufferPool.Sized (pool : SgBufferPool) (maxNrBlocks : Nat) : Prop :=
  ∀ index, (pool index).maxNrBlocks = maxNrBlocks

theorem appendAll_transferMatrix {maxNrBlocks : Nat} (clean : pool.Clean) (sized : pool.Sized maxNrBlocks) :
    ((⟨pool, fun _ => false⟩ : Locals).appendAll args rank.dpus).transferMatrix args =
      givenTransfer rank args maxNrBlocks := by
  obtain ⟨inside, outside⟩ := @Locals.appendAll_spec args rank.dpus ⟨pool, fun _ => false⟩ rank.dpus_nodup
    (fun dpu _ => clean dpu.1) (fun _ _ => rfl)
  simp only [Locals.transferMatrix, givenTransfer, SgTransfer.mk.injEq, true_and]
  funext index
  cases found : rank.dpus.find? fun dpu => dpu.1 = index with
  | none =>
    have absent : index ∉ rank.dpus.map Prod.fst := by
      simp only [List.mem_map, not_exists, not_and]
      intro dpu member
      simpa using List.find?_eq_none.mp found dpu member
    simp [outside index absent]
  | some dpu =>
    have here : dpu.1 = index := by simpa using List.find?_some found
    obtain ⟨blocks, set⟩ := inside dpu (List.mem_of_find?_eq_some found)
    rw [here, sized] at blocks set
    by_cases empty : givenBlocks args maxNrBlocks dpu.2 = []
    · simp [empty, set, Option.filter]
    · simp [set, empty, blocks, Option.filter]

theorem addBlocks_sized {maxNrBlocks dpuIndex index left blockIndex : Nat} {nrBytes : BitVec 32} {locals : Locals}
    (sized : locals.pool.Sized maxNrBlocks) :
    (addBlocks args dpuIndex index left blockIndex nrBytes locals).2.pool.Sized maxNrBlocks := by
  induction left generalizing blockIndex nrBytes locals with
  | zero =>
    unfold addBlocks
    split
    · split <;> exact sized
    · exact sized
    · contradiction
  | succ left ih =>
    unfold addBlocks
    split
    · split <;> exact sized
    · exact sized
    · rename_i binfo left' _ same
      obtain rfl := Nat.succ.inj same
      have added (pool : SgBufferPool) (sized : pool.Sized maxNrBlocks) :
          (dpuTransferMatrixAddDpuBlock index binfo pool).2.Sized maxNrBlocks := by
        unfold dpuTransferMatrixAddDpuBlock
        split
        · exact sized
        · intro other
          by_cases here : other = index
          · subst here
            simpa using sized other
          · simpa [here] using sized other
      split_ifs
      · exact sized
      · exact ih sized
      · exact sized
      · dsimp only
        split
        · exact added locals.pool sized
        · exact ih (added locals.pool sized)

theorem addDpus_sized {maxNrBlocks : Nat} {locals : Locals} (sized : locals.pool.Sized maxNrBlocks)
    (dpus : List (Nat × Nat)) : (addDpus args dpus locals).2.pool.Sized maxNrBlocks := by
  induction dpus generalizing locals with
  | nil => exact sized
  | cons dpu rest ih =>
    simp only [addDpus]
    split
    · exact addBlocks_sized sized
    · exact ih (addBlocks_sized sized)

theorem sgXferRankHandler_sized {maxNrBlocks : Nat} (sized : pool.Sized maxNrBlocks) :
    (sgXferRankHandler rank copied args pool).pool.Sized maxNrBlocks := by
  have after : (addDpus args rank.dpus ⟨pool, fun _ => false⟩).2.pool.Sized maxNrBlocks :=
    addDpus_sized sized rank.dpus
  unfold sgXferRankHandler
  split
  · exact sized
  · dsimp only
    split_ifs
    · exact after
    · exact after
    · exact after
    · exact fun index => (resetSgBufferPool_maxNrBlocks _ index).trans (after index)

/-- On a pool without blocks the handler succeeds exactly when it is well asked. -/
theorem sgXferRankHandler_spec {maxNrBlocks : Nat} (clean : pool.Clean) (sized : pool.Sized maxNrBlocks) :
    (WellAsked rank maxNrBlocks copied args ∧ ∃ left : SgBufferPool, left.Clean ∧
        sgXferRankHandler rank copied args pool =
          ⟨.ok, left, freeCbArgs args, some (givenTransfer rank args maxNrBlocks)⟩) ∨
      (¬WellAsked rank maxNrBlocks copied args ∧ (sgXferRankHandler rank copied args pool).args = args) := by
  by_cases enabled : rank.sgXferEnabled = true
  swap
  · exact .inr ⟨fun asked => enabled asked.enabled, by simp [sgXferRankHandler, enabled]⟩
  by_cases direction : args.xfer = .other
  · refine .inr ⟨fun asked => asked.direction direction, ?_⟩
    simp only [sgXferRankHandler, enabled, direction]
    split_ifs <;> rfl
  have spec :=
    @addDpus_spec args rank.dpus ⟨pool, fun _ => false⟩ direction rank.dpus_nodup fun dpu _ => clean dpu.1
  simp only [sized _] at spec
  rcases spec with ⟨fits, added⟩ | ⟨misfit, failed⟩
  · have matrix := @appendAll_transferMatrix rank args pool maxNrBlocks clean sized
    by_cases copy : copied (givenTransfer rank args maxNrBlocks) = .ok
    · have outside := (@Locals.appendAll_spec args rank.dpus ⟨pool, fun _ => false⟩ rank.dpus_nodup
        (fun dpu _ => clean dpu.1) (fun _ _ => rfl)).2
      have reset :
          (resetSgBufferPool rank.dpus ((⟨pool, fun _ => false⟩ : Locals).appendAll args rank.dpus).pool).Clean :=
        resetSgBufferPool_clean fun index absent => by rw [(outside index absent).1]; exact clean index
      exact .inl ⟨⟨enabled, direction, fits, copy⟩, _, reset, by
        simp [sgXferRankHandler, enabled, added, direction, matrix, copy]⟩
    · exact .inr ⟨fun asked => copy asked.copy, by
        simp [sgXferRankHandler, enabled, added, direction, matrix, copy]⟩
  · exact .inr ⟨fun asked => misfit asked.fits, by simp [sgXferRankHandler, enabled, failed]⟩

end Handler

/-- `sg_buffer_pool_create`. -/
def sgBufferPoolCreate (dpuMaxNrBlocks : Nat) : SgBufferPool := fun _ => ⟨dpuMaxNrBlocks, []⟩

/-- A call of the handler, with the answers of the copy. -/
structure Call where
  copied : SgTransfer → DpuError
  args : SgXferCallbackArgs

def step (rank : SgRank) (pool : SgBufferPool) (call : Call) (after : SgBufferPool) : Prop :=
  after = (sgXferRankHandler rank call.copied call.args pool).pool

/-- The call leaves no blocks behind, has released the reference to its
arguments and, where it copied, the transfer had exactly the blocks given. -/
structure LeavesNoTrace (rank : SgRank) (maxNrBlocks : Nat)
    (τ : Transitions.Transition SgBufferPool Call) : Prop where
  clean : τ.after.Clean
  released : (sgXferRankHandler rank τ.action.copied τ.action.args τ.before).args = freeCbArgs τ.action.args
  given : ∀ transfer, (sgXferRankHandler rank τ.action.copied τ.action.args τ.before).transfer = some transfer →
    transfer = givenTransfer rank τ.action.args maxNrBlocks

theorem freeCbArgs_ne (args : SgXferCallbackArgs) : args ≠ freeCbArgs args := by
  intro same
  have counts := congrArg (fun args => args.freeingRefcpt) same
  simp only [freeCbArgs] at counts
  bv_omega

section Runs
variable {rank : SgRank} {dpuMaxNrBlocks : Nat} {pool : SgBufferPool}
  {history : List (Transitions.Transition SgBufferPool Call)}

/-- In every run of the handler every call leaves no trace if and only if every call is well asked. -/
theorem leavesNoTrace_iff (run : Transitions.Run (step rank) (sgBufferPoolCreate dpuMaxNrBlocks) history pool) :
    (∀ τ ∈ history, LeavesNoTrace rank dpuMaxNrBlocks τ) ↔
      ∀ τ ∈ history, WellAsked rank dpuMaxNrBlocks τ.action.copied τ.action.args := by
  refine run.guarded_transition_iff (I := fun pool => pool.Sized dpuMaxNrBlocks) (Q := SgBufferPool.Clean)
    (fun _ => rfl) ?_
    (fun _ => rfl) (fun _ traceless => traceless.clean) ?_
  · rintro before call after sized rfl
    exact sgXferRankHandler_sized sized
  · rintro before call after sized clean rfl
    rcases @sgXferRankHandler_spec rank call.copied call.args _ _ clean sized with
      ⟨asked, left, cleanLeft, done⟩ | ⟨notAsked, kept⟩
    · refine iff_of_true ⟨?_, ?_, ?_⟩ asked
      · simpa only [done] using cleanLeft
      · simp only [done]
      · simp only [done, Option.some.injEq]
        rintro transfer rfl
        rfl
    · refine iff_of_false (fun traceless => ?_) notAsked
      exact freeCbArgs_ne call.args (kept.symm.trans traceless.released)

end Runs

/-- A rank of one enabled DPU with scatter/gather transfers. -/
def oneDpuRank : SgRank where
  set :=
    { rank := (MramAccess.dpuOnlyRank 1 one_le_DPU_MAX_NR_CIS).withEnabled fun _ _ => true
      agrees := (MramAccess.dpuOnlyRank 1 one_le_DPU_MAX_NR_CIS).withEnabled_agrees _ }
  dpuOffset := 0
  sgXferEnabled := true

theorem oneDpuRank_dpus : oneDpuRank.dpus = [(0, 0)] := by
  rw [SgRank.dpus, dpuForeach_eq (oneTopology_single _)]
  decide

/-- The arguments of a transfer of one block of 8 bytes to each DPU of one rank. -/
def oneBlockArgs : SgXferCallbackArgs where
  getBlock := fun _ blockIndex => if blockIndex = 0 then some ⟨4096, 8#32⟩ else none
  xfer := .toDpu
  symbolAddr := 0x08000000#32
  length := 8#64
  disableLengthCheck := false
  freeingRefcpt := 1#32
  freed := false

theorem oneBlockArgs_fits : ∀ dpu ∈ oneDpuRank.dpus, BlocksFit oneBlockArgs dpu.2 1 0 0#32 := by
  rw [oneDpuRank_dpus, List.forall_mem_singleton]
  exact ⟨by decide, fun _ => ⟨fun _ => by decide, rfl⟩⟩

theorem leavesNoTrace_iff_oneBlock :
    LeavesNoTrace oneDpuRank 1 ⟨sgBufferPoolCreate 1, ⟨fun _ => .ok, oneBlockArgs⟩,
      (sgXferRankHandler oneDpuRank (fun _ => .ok) oneBlockArgs (sgBufferPoolCreate 1)).pool⟩ := by
  have run : Transitions.Run (step oneDpuRank) (sgBufferPoolCreate 1)
      [⟨sgBufferPoolCreate 1, ⟨fun _ => .ok, oneBlockArgs⟩, _⟩] _ := .next .start rfl
  have asked : WellAsked oneDpuRank 1 (fun _ => .ok) oneBlockArgs :=
    ⟨rfl, DpuXfer.noConfusion, oneBlockArgs_fits, rfl⟩
  exact (leavesNoTrace_iff run).mpr (List.forall_mem_singleton.mpr asked) _ List.mem_cons_self

/-- When the copy fails because DPUs are running, the block stays in the pool
and the arguments keep their reference. -/
theorem failedCopy_leaves_trace :
    ¬∀ rank dpuMaxNrBlocks history pool, Transitions.Run (step rank)
    (sgBufferPoolCreate dpuMaxNrBlocks) history pool →
      ∀ τ ∈ history, LeavesNoTrace rank dpuMaxNrBlocks τ := by
  intro always
  have run : Transitions.Run (step oneDpuRank) (sgBufferPoolCreate 1)
      [⟨sgBufferPoolCreate 1, ⟨fun _ => .mramBusy, oneBlockArgs⟩, _⟩] _ := .next .start rfl
  have kept := (always _ _ _ _ run _ List.mem_cons_self).clean 0
  simp only [sgXferRankHandler, oneDpuRank_dpus] at kept
  revert kept
  decide

end Upmem.Sg
