import Upmem.SgStream

namespace Upmem.Sg
open Transitions

/-- A scatter/gather transfer, with the bytes of the MRAM range of each DPU, or what the host does to its memory. -/
inductive SgAction
  | copy (transfer : SgTransfer) (mram : Nat → Nat → BitVec 8)
  | host (mem : HostMemory)

section Transfers
variable (zeros : Nat)

/-- The bytes that a transfer sends to a DPU with some blocks. -/
def SgTransfer.sent (transfer : SgTransfer) (mem : HostMemory) (blocks : List SgBlockInfo) : List (BitVec 8) :=
  sendWords mem (transfer.size.toNat / 8) (initSgXferBufferIterator zeros blocks)

/-- The stores of a transfer from a DPU with some blocks. -/
def SgTransfer.received (transfer : SgTransfer) (mram : Nat → BitVec 8) (blocks : List SgBlockInfo) :
    List (Nat × BitVec 8) :=
  receiveWords mram (transfer.size.toNat / 8) 0 (initSgXferBufferIterator zeros blocks)

/-- The stores of a transfer from all DPUs. -/
def SgTransfer.stores (transfer : SgTransfer) (mram : Nat → Nat → BitVec 8) : List (Nat × BitVec 8) :=
  (List.range 64).flatMap fun index =>
    match transfer.blocks index with
    | some blocks => transfer.received zeros (mram index) blocks
    | none => []

def performStores (stores : List (Nat × BitVec 8)) (mem : HostMemory) : HostMemory :=
  stores.foldl (fun mem store address => if address = store.1 then store.2 else mem address) mem

/-- The size is one of whole words, and each DPU in the transfer has blocks,
none of them empty and all apart from the shared zeros. -/
structure SgTransfer.WellFormed (transfer : SgTransfer) : Prop where
  words : transfer.size.toNat % 8 = 0
  nonempty : ∀ index blocks, transfer.blocks index = some blocks → blocks ≠ []
  filled : ∀ index blocks, transfer.blocks index = some blocks → ∀ block ∈ blocks, block.length ≠ 0#32
  apart : ∀ index blocks, transfer.blocks index = some blocks → ∀ address ∈ streamOf blocks, ¬ InZeros zeros address

def SgAction.Valid (mem : HostMemory) : SgAction → Prop
  | .copy transfer _ => transfer.WellFormed zeros
  | .host after => ∀ address, InZeros zeros address → after address = mem address

/-- A transfer from the DPUs does its stores in some order, since the lines are left to several threads. -/
def sgStep (mem : HostMemory) (action : SgAction) (after : HostMemory) : Prop :=
  action.Valid zeros mem ∧
    match action with
    | .copy transfer mram =>
      if transfer.toDpu then after = mem
      else ∃ order, order.Perm (transfer.stores zeros mram) ∧ after = performStores order mem
    | .host given => after = given

/-- The zeros are zero. -/
def ZerosClear (mem : HostMemory) : Prop := ∀ address, InZeros zeros address → mem address = 0#8

/-- A transfer sends each DPU the bytes of its blocks, cut off or continued with zero bytes, and writes nothing. -/
structure SendsStream (transfer : SgTransfer) (mem after : HostMemory) : Prop where
  sent : ∀ index blocks, transfer.blocks index = some blocks → transfer.sent zeros mem blocks =
    ((streamOf blocks).map mem).take transfer.size.toNat ++
      List.replicate (transfer.size.toNat - (streamOf blocks).length) 0#8
  unchanged : after = mem

/-- A transfer stores the bytes of the MRAM ranges in the blocks, each once and in
order, and writes nothing else. -/
structure ReceivesStream (transfer : SgTransfer) (mram : Nat → Nat → BitVec 8) (mem after : HostMemory) : Prop where
  received : ∀ index blocks, transfer.blocks index = some blocks → transfer.received zeros (mram index) blocks =
    ((streamOf blocks).take transfer.size.toNat).zip (rangeBytes (mram index) 0 transfer.size.toNat)
  unchanged : ∀ address, (∀ index blocks, transfer.blocks index = some blocks →
    address ∉ (streamOf blocks).take transfer.size.toNat) → after address = mem address
  clear : ZerosClear zeros after

def StreamSound (τ : Transition HostMemory SgAction) : Prop :=
  match τ.action with
  | .copy transfer mram =>
    if transfer.toDpu then SendsStream zeros transfer τ.before τ.after
    else ReceivesStream zeros transfer mram τ.before τ.after
  | .host _ => True

/-- The blocks of each DPU that is read from end at a whole word or not before the transfer does. -/
def SgAction.EndsWhole : SgAction → Prop
  | .copy transfer _ => transfer.toDpu = false → ∀ index blocks, transfer.blocks index = some blocks →
      (streamOf blocks).length % 8 = 0 ∨ transfer.size.toNat ≤ (streamOf blocks).length
  | .host _ => True

variable {zeros} {transfer : SgTransfer} {mem start s : HostMemory} {blocks : List SgBlockInfo} {index : Nat}
  {history : List (Transition HostMemory SgAction)}

theorem init_reads (nonempty : blocks ≠ []) (filled : ∀ block ∈ blocks, block.length ≠ 0#32) :
    Reads zeros (initSgXferBufferIterator zeros blocks) (streamOf blocks) := by
  cases blocks with
  | nil => exact absurd rfl nonempty
  | cons block rest => exact .start filled

theorem SgTransfer.WellFormed.noOverflow (formed : transfer.WellFormed zeros) (blocks : List SgBlockInfo) :
    NoOverflow (initSgXferBufferIterator zeros blocks) (streamOf blocks) (transfer.size.toNat / 8) := by
  have words := formed.words
  have small := transfer.size.isLt
  have start : (initSgXferBufferIterator zeros blocks).currentBlockIndex.toNat = 0 := by cases blocks <;> rfl
  exact .inr (by omega)

theorem SgTransfer.WellFormed.sent_eq (formed : transfer.WellFormed zeros) (clear : ZerosClear zeros mem)
    (given : transfer.blocks index = some blocks) : transfer.sent zeros mem blocks =
      ((streamOf blocks).map mem).take transfer.size.toNat ++
        List.replicate (transfer.size.toNat - (streamOf blocks).length) 0#8 := by
  have reads : Reads zeros (initSgXferBufferIterator zeros blocks) (streamOf blocks) :=
    init_reads (formed.nonempty index blocks given) (formed.filled index blocks given)
  have words : 8 * (transfer.size.toNat / 8) = transfer.size.toNat :=
    Nat.mul_div_cancel' (Nat.dvd_of_mod_eq_zero formed.words)
  obtain ⟨pad, length, inZeros, bytes⟩ :=
    @sendWords_spec zeros _ _ mem (transfer.size.toNat / 8) reads (formed.noOverflow blocks)
  rw [words] at length bytes
  rw [SgTransfer.sent, bytes, List.map_append, List.map_take]
  refine congrArg _ (List.eq_replicate_iff.mpr ⟨by rw [List.length_map, length], ?_⟩)
  intro byte member
  obtain ⟨address, padded, rfl⟩ := List.mem_map.mp member
  exact clear address (inZeros address padded)

theorem SgTransfer.WellFormed.received_eq {mram : Nat → BitVec 8} (formed : transfer.WellFormed zeros)
    (given : transfer.blocks index = some blocks)
    (whole : (streamOf blocks).length % 8 = 0 ∨ transfer.size.toNat ≤ (streamOf blocks).length) :
    transfer.received zeros mram blocks =
      ((streamOf blocks).take transfer.size.toNat).zip (rangeBytes mram 0 transfer.size.toNat) := by
  have reads : Reads zeros (initSgXferBufferIterator zeros blocks) (streamOf blocks) :=
    init_reads (formed.nonempty index blocks given) (formed.filled index blocks given)
  have words : 8 * (transfer.size.toNat / 8) = transfer.size.toNat :=
    Nat.mul_div_cancel' (Nat.dvd_of_mod_eq_zero formed.words)
  have stores :=
    @receiveWords_spec zeros _ _ mram (transfer.size.toNat / 8) 0 reads (formed.noOverflow blocks) (by rwa [words])
  rwa [words] at stores

/-- What no store goes to is unchanged. -/
theorem performStores_of_not_mem {stores : List (Nat × BitVec 8)} {address : Nat}
    (untouched : ∀ store ∈ stores, store.1 ≠ address) :
    performStores stores mem address = mem address := by
  induction stores generalizing mem with
  | nil => rfl
  | cons store rest ih =>
    obtain ⟨first, others⟩ := List.forall_mem_cons.mp untouched
    rw [performStores, List.foldl_cons, ← performStores, ih others, if_neg first.symm]

/-- Where the stores of a transfer whose blocks end well go. -/
theorem mem_stores {mram : Nat → Nat → BitVec 8} (formed : transfer.WellFormed zeros)
    (whole : ∀ index blocks, transfer.blocks index = some blocks →
      (streamOf blocks).length % 8 = 0 ∨ transfer.size.toNat ≤ (streamOf blocks).length)
    {store : Nat × BitVec 8} (member : store ∈ transfer.stores zeros mram) :
    ∃ index blocks, transfer.blocks index = some blocks ∧ store.1 ∈ (streamOf blocks).take transfer.size.toNat := by
  obtain ⟨index, -, stored⟩ := List.mem_flatMap.mp member
  cases given : transfer.blocks index with
  | none => simp [given] at stored
  | some blocks =>
    simp only [given, formed.received_eq given (whole index blocks given)] at stored
    exact ⟨index, blocks, given, (List.of_mem_zip stored).1⟩

/-- A step whose blocks end well keeps the zeros clear and streams as it should. -/
theorem SgAction.EndsWhole.sound {action : SgAction} {after : HostMemory} (clear : ZerosClear zeros mem)
    (taken : sgStep zeros mem action after) (whole : action.EndsWhole) :
    ZerosClear zeros after ∧ StreamSound zeros ⟨mem, action, after⟩ := by
  obtain ⟨valid, effect⟩ := taken
  cases action with
  | host given =>
    obtain rfl : after = given := effect
    exact ⟨fun address inZeros => (valid address inZeros).trans (clear address inZeros), trivial⟩
  | copy transfer mram =>
    dsimp only at effect
    simp only [StreamSound]
    cases direction : transfer.toDpu with
    | true =>
      rw [if_pos direction] at effect
      subst effect
      exact ⟨clear, fun index blocks given => valid.sent_eq clear given, rfl⟩
    | false =>
      rw [if_neg (by simp [direction])] at effect
      obtain ⟨order, same, rfl⟩ := effect
      have ends := whole direction
      have untouched {address : Nat} (outside : ∀ index blocks, transfer.blocks index = some blocks →
          address ∉ (streamOf blocks).take transfer.size.toNat) :
          performStores order mem address = mem address := by
        refine performStores_of_not_mem fun store member there => ?_
        obtain ⟨index, blocks, given, inside⟩ := mem_stores valid ends (same.subset member)
        exact outside index blocks given (there ▸ inside)
      have clearAfter : ZerosClear zeros (performStores order mem) := by
        intro address inZeros
        rw [untouched fun index blocks given inside =>
          valid.apart index blocks given address (List.mem_of_mem_take inside) inZeros]
        exact clear address inZeros
      exact ⟨clearAfter, fun index blocks given => valid.received_eq given (ends index blocks given),
        fun address outside => untouched outside, clearAfter⟩

end Transfers

section Example

/-- A transfer of a word from one DPU to some blocks. -/
def wordFrom (blocks : List SgBlockInfo) : SgTransfer where
  toDpu := false
  offset := 0#32
  size := 8#32
  blocks := fun index => if index = 0 then some blocks else none

theorem wordFrom_wellFormed {blocks : List SgBlockInfo} (nonempty : blocks ≠ [])
    (filled : ∀ block ∈ blocks, block.length ≠ 0#32) (low : ∀ address ∈ streamOf blocks, address < 100) :
    (wordFrom blocks).WellFormed 100 := by
  have only {index : Nat} {given : List SgBlockInfo} (some_given : (wordFrom blocks).blocks index = some given) :
      given = blocks := by
    simp only [wordFrom] at some_given
    split at some_given
    · exact (Option.some.inj some_given).symm
    · cases some_given
  exact
    { words := (by decide : (8#32).toNat % 8 = 0)
      nonempty := fun _ _ given => only given ▸ nonempty
      filled := fun _ _ given => only given ▸ filled
      apart := fun _ _ given address member inZeros =>
        absurd (low address (only given ▸ member)) (not_lt.mpr inZeros.1) }

/-- The bytes of the MRAM of each DPU, counted from one. -/
def countedMram : Nat → Nat → BitVec 8 := fun _ i => BitVec.ofNat 8 (i + 1)

def noMemory : HostMemory := fun _ => 0#8

/-- A word from a DPU, to some blocks. -/
def takeWord (blocks : List SgBlockInfo) : Transition HostMemory SgAction :=
  ⟨noMemory, .copy (wordFrom blocks) countedMram, performStores ((wordFrom blocks).stores 100 countedMram) noMemory⟩

theorem takeWord_run {blocks : List SgBlockInfo} (formed : (wordFrom blocks).WellFormed 100) :
    Run (sgStep 100) noMemory [takeWord blocks] (takeWord blocks).after := by
  have taken : sgStep 100 noMemory (.copy (wordFrom blocks) countedMram) (takeWord blocks).after :=
    ⟨formed, _, .refl _, rfl⟩
  exact Run.start.next taken

end Example

section Histories
variable {zeros : Nat} {start s : HostMemory} {history : List (Transition HostMemory SgAction)}

/-- In every history whose transfers from DPUs have blocks that end well all transfers stream as they should. -/
theorem endsWhole_streamSound (clear : ZerosClear zeros start) (run : Run (sgStep zeros) start history s)
    (whole : ∀ τ ∈ history, τ.action.EndsWhole) : ZerosClear zeros s ∧ ∀ τ ∈ history, StreamSound zeros τ :=
  run.guarded_transitions (Q := ZerosClear zeros) clear
    (fun _ _ _ before taken ends => ends.sound before taken) whole

theorem endsWhole_streamSound_takeWord : ZerosClear 100 (takeWord [⟨0, 3#32⟩, ⟨10, 5#32⟩]).after ∧
    StreamSound 100 (takeWord [⟨0, 3#32⟩, ⟨10, 5#32⟩]) := by
  have formed : (wordFrom [⟨0, 3#32⟩, ⟨10, 5#32⟩]).WellFormed 100 :=
    wordFrom_wellFormed (by simp) (by decide) (by decide)
  have whole : (takeWord [⟨0, 3#32⟩, ⟨10, 5#32⟩]).action.EndsWhole := by
    intro _ index blocks given
    simp only [wordFrom] at given
    split at given
    · obtain rfl := Option.some.inj given
      exact .inl (by decide)
    · cases given
  obtain ⟨clear, sound⟩ := endsWhole_streamSound (fun _ _ => rfl) (takeWord_run formed)
    (List.forall_mem_singleton.mpr whole)
  exact ⟨clear, sound _ List.mem_cons_self⟩

/-- A block of three bytes, into which a word is stored. -/
theorem shortBlock_not_sound :
    ¬ ∀ (zeros : Nat) (start s : HostMemory) (history : List (Transition HostMemory SgAction)),
    ZerosClear zeros start → Run (sgStep zeros) start history s →
      ZerosClear zeros s ∧ ∀ τ ∈ history, StreamSound zeros τ := by
  intro sound
  have formed : (wordFrom [⟨0, 3#32⟩]).WellFormed 100 := wordFrom_wellFormed (by simp) (by decide) (by decide)
  have inZeros : InZeros 100 100 := ⟨le_refl _, by decide⟩
  have clear := (sound 100 _ _ _ (fun _ _ => rfl) (takeWord_run formed)).1 100 inZeros
  revert clear
  decide

end Histories

end Upmem.Sg
