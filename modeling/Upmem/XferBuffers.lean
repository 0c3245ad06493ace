import Upmem.SymbolBounds

namespace Upmem.XferBuffers

open Loops (Writes)
open Sg (DpuXfer)
open SymbolBounds (DpuSymbol checkSymbol dpuCopySymbolDpu matrixJob)

def DPU_XFER_NO_RESET : BitVec 32 := 1#32
def DPU_XFER_ASYNC : BitVec 32 := 2#32

/-- The place of a buffer pointer: the rank, whether the matrix is the one of
its callbacks, and the index in it. -/
structure Entry where
  rank : Nat
  callbackMatrix : Bool
  index : Nat
  deriving DecidableEq

/-- The fields `ptr` of the transfer matrices of all ranks, 0 for `NULL`. -/
abbrev Matrices := Entry → Nat

/-- The fields of `rank->api` that other threads may write between two calls. -/
structure RankApi where
  callbackTidSet : Bool
  callbackTid : Nat
  jobError : DpuError

/-- The thread that makes a call and what it finds in the ranks. -/
structure Caller where
  self : Nat
  api : Nat → RankApi

/-- Whether `dpu_get_transfer_matrix` returns the matrix of the callbacks. -/
def Caller.callbackMatrix (caller : Caller) (rank : Nat) : Bool :=
  (caller.api rank).callbackTidSet && (caller.api rank).callbackTid = caller.self

/-- The entry of `dpu_get_transfer_matrix` at an index. -/
def Caller.entry (caller : Caller) (rank index : Nat) : Entry := ⟨rank, caller.callbackMatrix rank, index⟩

variable (rankOf : Nat → Rank)

/-- A DPU of the topology. -/
structure DpuOf where
  rank : Nat
  sliceId : Nat
  dpuId : Nat
  slice_lt : sliceId < (rankOf rank).nrCis
  dpu_lt : dpuId < (rankOf rank).nrDpusPerCi

inductive XferSet
  | ranks (ranks : List Nat)
  | dpu (dpu : DpuOf rankOf)

variable {rankOf}

/-- The index of a DPU in the matrices of its rank. -/
def DpuOf.index (dpu : DpuOf rankOf) : Nat :=
  MramAccess.getTransferMatrixIndex (rankOf dpu.rank) (dpu.sliceId, dpu.dpuId)

def DpuOf.enabled (dpu : DpuOf rankOf) : Bool := (rankOf dpu.rank).enabledSet dpu.sliceId dpu.dpuId

section Calls
variable (caller : Caller)

variable (rankOf) in
/-- The turn of the loops of `dpu_prepare_xfer` for one DPU. -/
def prepareDpu (buffer rank : Nat) (matrices : Matrices) (eachCi eachDpu : Nat) : Matrices :=
  if (rankOf rank).enabledSet eachCi eachDpu then
    Function.update matrices
      (caller.entry rank (MramAccess.getTransferMatrixIndex (rankOf rank) (eachCi, eachDpu))) buffer
  else matrices

variable (rankOf) in
def prepareRank (buffer : Nat) (matrices : Matrices) (rank : Nat) : Matrices :=
  (List.range (rankOf rank).nrCis).foldl (fun matrices eachCi =>
    (List.range (rankOf rank).nrDpusPerCi).foldl (fun matrices eachDpu =>
      prepareDpu rankOf caller buffer rank matrices eachCi eachDpu) matrices) matrices

def dpuPrepareXfer (buffer : Nat) (matrices : Matrices) : XferSet rankOf → DpuError × Matrices
  | .ranks ranks => (.ok, ranks.foldl (prepareRank rankOf caller buffer) matrices)
  | .dpu dpu =>
    if !dpu.enabled then (.dpuDisabled, matrices)
    else (.ok, Function.update matrices (caller.entry dpu.rank dpu.index) buffer)

/-- `dpu_transfer_matrix_clear_all` of the matrix that the caller sees. -/
def clearAll (matrices : Matrices) (rank : Nat) : Matrices := fun entry =>
  if entry.rank = rank ∧ entry.callbackMatrix = caller.callbackMatrix rank then 0 else matrices entry

/-- The clearing at the end of `dpu_push_xfer_symbol`. -/
def resetXfer (matrices : Matrices) : XferSet rankOf → Matrices
  | .ranks ranks => ranks.foldl (clearAll caller) matrices
  | .dpu dpu => Function.update matrices (caller.entry dpu.rank dpu.index) 0

/-- `DPU_THREAD_JOB_GET_JOBS`: a synchronous call in a callback of its one rank needs no job of the rank. -/
def getJobs (flags : BitVec 32) : List Nat → DpuError
  | [rank] =>
    if flags &&& DPU_XFER_ASYNC = 0#32 ∧ (caller.api rank).callbackTidSet = true then .ok
    else (caller.api rank).jobError
  | ranks => ((ranks.map fun rank => (caller.api rank).jobError).find? (· ≠ .ok)).getD .ok

structure PushArgs where
  xfer : DpuXfer
  symbol : DpuSymbol
  symbolOffset : BitVec 32
  length : BitVec 64
  flags : BitVec 32

/-- `dpu_push_xfer_symbol`, with the status of the jobs. -/
def dpuPushXferSymbol (args : PushArgs) (done : DpuError) (matrices : Matrices) (set : XferSet rankOf) :
    DpuError × Matrices :=
  let reset := if args.flags ≠ DPU_XFER_NO_RESET then resetXfer caller matrices set else matrices
  match set with
  | .ranks ranks =>
    match matrixJob args.symbol args.symbolOffset args.length args.xfer with
    | .error status => (status, matrices)
    | .ok _ =>
      let status := getJobs caller args.flags ranks
      if status ≠ .ok then (status, matrices) else (done, reset)
  | .dpu dpu =>
    match dpuCopySymbolDpu args.symbol args.symbolOffset args.length dpu.enabled args.xfer with
    | .error status => (status, reset)
    | .ok _ =>
      let status := getJobs caller args.flags [dpu.rank]
      if status ≠ .ok then (status, reset) else (done, reset)

/-- The buffer pointers of the DPUs of a set, in the matrices that the caller sees. -/
def XferSet.Owns (set : XferSet rankOf) (entry : Entry) : Prop :=
  entry.callbackMatrix = caller.callbackMatrix entry.rank ∧
    match set with
    | .ranks all => entry.rank ∈ all ∧
        ∃ each : DpuOf rankOf, each.enabled = true ∧ each.rank = entry.rank ∧ each.index = entry.index
    | .dpu one => one.rank = entry.rank ∧ one.index = entry.index

/-- What a push has to get through before it clears pointers. -/
def PushArgs.Passes (args : PushArgs) : XferSet rankOf → Prop
  | .ranks ranks => checkSymbol args.symbol args.symbolOffset args.length = none ∧ args.xfer ≠ .other ∧
      getJobs caller args.flags ranks = .ok
  | .dpu _ => True

end Calls

variable (rankOf) in
/-- The calls of a run, each with its caller. -/
inductive Call
  | prepare (caller : Caller) (set : XferSet rankOf) (buffer : Nat)
  | push (caller : Caller) (set : XferSet rankOf) (args : PushArgs) (done : DpuError)

def Call.perform (matrices : Matrices) : Call rankOf → DpuError × Matrices
  | .prepare caller set buffer => dpuPrepareXfer caller buffer matrices set
  | .push caller set args done => dpuPushXferSymbol caller args done matrices set

def step (before : Matrices) (call : Call rankOf) (after : Matrices) : Prop :=
  after = (call.perform before).2

/-- A push clears the pointers of exactly the DPUs of its set, or with
`DPU_XFER_NO_RESET` none. No call changes pointers of other DPUs. -/
def KeepsLaw (before : Matrices) (call : Call rankOf) (after : Matrices) : Prop :=
  match call with
  | .prepare caller set _ => ∀ entry, ¬set.Owns caller entry → after entry = before entry
  | .push caller set args _ => (∀ entry, ¬set.Owns caller entry → after entry = before entry) ∧
      (args.flags &&& DPU_XFER_NO_RESET = 0#32 → ∀ entry, set.Owns caller entry → after entry = 0) ∧
      (args.flags &&& DPU_XFER_NO_RESET ≠ 0#32 → after = before)

/-- No pointer of the set is there to be cleared; or the push is to clear them
and gets through to where it does; or it is not to clear them, and its flags are
`DPU_XFER_NO_RESET` alone or it does not get there. -/
def ResetsAsAsked (before : Matrices) : Call rankOf → Prop
  | .prepare .. => True
  | .push caller set args _ => (∀ entry, set.Owns caller entry → before entry = 0) ∨
      (args.flags &&& DPU_XFER_NO_RESET = 0#32 ∧ args.Passes caller set) ∨
      (args.flags &&& DPU_XFER_NO_RESET ≠ 0#32 ∧ (args.flags = DPU_XFER_NO_RESET ∨ ¬args.Passes caller set))

/-- Only DPUs that are enabled have buffers. -/
def OfEnabled (rankOf : Nat → Rank) (matrices : Matrices) : Prop :=
  ∀ entry, matrices entry ≠ 0 →
    ∃ dpu : DpuOf rankOf, dpu.enabled = true ∧ dpu.rank = entry.rank ∧ dpu.index = entry.index

section Steps
variable {caller : Caller} {set : XferSet rankOf} {matrices : Matrices}

theorem prepareDpu_writes (buffer rank eachCi eachDpu : Nat) :
    Writes (fun matrices => prepareDpu rankOf caller buffer rank matrices eachCi eachDpu)
      (fun entry => (rankOf rank).enabledSet eachCi eachDpu = true ∧
        entry = caller.entry rank (MramAccess.getTransferMatrixIndex (rankOf rank) (eachCi, eachDpu))) buffer := by
  intro matrices entry
  unfold prepareDpu
  cases enabled : (rankOf rank).enabledSet eachCi eachDpu with
  | true => simpa using Writes.update _ buffer matrices entry
  | false => simp

theorem owns_ranks_iff {ranks : List Nat} {entry : Entry} :
    (XferSet.ranks ranks : XferSet rankOf).Owns caller entry ↔
      ∃ rank ∈ ranks, ∃ eachCi ∈ List.range (rankOf rank).nrCis, ∃ eachDpu ∈ List.range (rankOf rank).nrDpusPerCi,
        (rankOf rank).enabledSet eachCi eachDpu = true ∧
          entry = caller.entry rank (MramAccess.getTransferMatrixIndex (rankOf rank) (eachCi, eachDpu)) := by
  constructor
  · rintro ⟨seen, member, dpu, enabled, inRank, atIndex⟩
    refine ⟨dpu.rank, inRank ▸ member, dpu.sliceId, List.mem_range.mpr dpu.slice_lt, dpu.dpuId,
      List.mem_range.mpr dpu.dpu_lt, enabled, ?_⟩
    cases entry
    simp_all [Caller.entry, DpuOf.index]
  · rintro ⟨rank, member, eachCi, ci, eachDpu, dpu, enabled, rfl⟩
    exact ⟨rfl, member, ⟨rank, eachCi, eachDpu, List.mem_range.mp ci, List.mem_range.mp dpu⟩, enabled, rfl, rfl⟩

/-- The loops over the ranks and their DPUs write the buffer to the pointers of the set. -/
theorem prepareRanks_writes (ranks : List Nat) (buffer : Nat) :
    Writes (fun matrices => ranks.foldl (prepareRank rankOf caller buffer) matrices)
      (fun entry => (XferSet.ranks ranks : XferSet rankOf).Owns caller entry) buffer := by
  have loops : Writes (fun matrices => ranks.foldl (prepareRank rankOf caller buffer) matrices) _ buffer :=
    Writes.foldl fun rank _ => Writes.foldl fun eachCi _ => Writes.foldl fun eachDpu _ =>
      @prepareDpu_writes rankOf caller buffer rank eachCi eachDpu
  exact loops.congr fun entry => owns_ranks_iff.symm

theorem dpu_owns_iff {dpu : DpuOf rankOf} {entry : Entry} :
    (XferSet.dpu dpu).Owns caller entry ↔ entry = caller.entry dpu.rank dpu.index := by
  cases entry
  simp only [XferSet.Owns, Caller.entry, Entry.mk.injEq]
  constructor
  · rintro ⟨seen, rfl, rfl⟩
    exact ⟨rfl, seen, rfl⟩
  · rintro ⟨rfl, seen, rfl⟩
    exact ⟨seen, rfl, rfl⟩

theorem dpuPrepareXfer_others (buffer : Nat) {entry : Entry} (other : ¬set.Owns caller entry) :
    (dpuPrepareXfer caller buffer matrices set).2 entry = matrices entry := by
  cases set with
  | ranks ranks => exact (prepareRanks_writes ranks buffer matrices entry).2 other
  | dpu dpu =>
    rw [dpuPrepareXfer]
    split_ifs
    · rfl
    · exact Function.update_of_ne (mt dpu_owns_iff.mpr other) ..

theorem dpuPrepareXfer_ofEnabled (kept : OfEnabled rankOf matrices) (buffer : Nat) :
    OfEnabled rankOf (dpuPrepareXfer caller buffer matrices set).2 := by
  intro entry some
  by_cases own : set.Owns caller entry
  · cases set with
    | ranks ranks => exact own.2.2
    | dpu dpu =>
      by_cases enabled : dpu.enabled = true
      · exact ⟨dpu, enabled, own.2⟩
      · rw [dpuPrepareXfer, if_pos (by simpa using enabled)] at some
        exact kept entry some
  · rw [dpuPrepareXfer_others buffer own] at some
    exact kept entry some

theorem clearAll_writes (rank : Nat) : Writes (fun matrices => clearAll caller matrices rank)
    (fun entry => entry.rank = rank ∧ entry.callbackMatrix = caller.callbackMatrix rank) 0 :=
  fun _ _ => ⟨fun own => if_pos own, fun other => if_neg other⟩

/-- Clearing whole matrices clears the pointers of the set and has no other effect. -/
theorem resetXfer_spec (kept : OfEnabled rankOf matrices) (entry : Entry) :
    (set.Owns caller entry → resetXfer caller matrices set entry = 0) ∧
      (¬set.Owns caller entry → resetXfer caller matrices set entry = matrices entry) := by
  cases set with
  | ranks ranks =>
    obtain ⟨hit, miss⟩ :=
      @Writes.foldl _ _ _ _ _ _ ranks (fun rank _ => @clearAll_writes caller rank) matrices entry
    refine ⟨fun own => hit ⟨entry.rank, own.2.1, rfl, own.1⟩, fun other => ?_⟩
    by_cases cleared : ∃ rank ∈ ranks, entry.rank = rank ∧ entry.callbackMatrix = caller.callbackMatrix rank
    · obtain ⟨_, member, rfl, seen⟩ := cleared
      have empty : matrices entry = 0 := by
        by_contra some
        exact other ⟨seen, member, kept entry some⟩
      exact (hit ⟨entry.rank, member, rfl, seen⟩).trans empty.symm
    · exact miss cleared
  | dpu dpu =>
    rw [dpu_owns_iff]
    exact Writes.update _ 0 matrices entry

/-- A push clears the matrices of its set when it gets through and its flags are not `DPU_XFER_NO_RESET` alone. -/
theorem dpuPushXferSymbol_resets {args : PushArgs} (done : DpuError) (passes : args.Passes caller set)
    (reset : args.flags ≠ DPU_XFER_NO_RESET) :
    (dpuPushXferSymbol caller args done matrices set).2 = resetXfer caller matrices set := by
  cases set with
  | ranks ranks =>
    obtain ⟨checked, direction, jobs⟩ := passes
    cases xfer : args.xfer <;> simp_all [dpuPushXferSymbol, matrixJob]
  | dpu dpu =>
    simp only [dpuPushXferSymbol, reset, ne_eq, not_false_eq_true, if_true]
    split
    · rfl
    · split <;> rfl

theorem dpuPushXferSymbol_keeps {args : PushArgs} (done : DpuError)
    (stopped : args.flags = DPU_XFER_NO_RESET ∨ ¬args.Passes caller set) :
    (dpuPushXferSymbol caller args done matrices set).2 = matrices := by
  cases set with
  | ranks ranks =>
    cases checked : checkSymbol args.symbol args.symbolOffset args.length with
    | some status => simp [dpuPushXferSymbol, matrixJob, checked]
    | none =>
      by_cases jobs : getJobs caller args.flags ranks = .ok
      · cases xfer : args.xfer <;> simp_all [dpuPushXferSymbol, matrixJob, PushArgs.Passes]
      · cases xfer : args.xfer <;> simp [dpuPushXferSymbol, matrixJob, checked, xfer, jobs]
  | dpu dpu =>
    have alone : args.flags = DPU_XFER_NO_RESET := stopped.resolve_right (not_not.mpr trivial)
    simp only [dpuPushXferSymbol, alone, ne_eq, not_true_eq_false, if_false]
    split
    · rfl
    · split <;> rfl

theorem step_ofEnabled {after : Matrices} (call : Call rankOf) (kept : OfEnabled rankOf matrices)
    (taken : step matrices call after) : OfEnabled rankOf after := by
  subst taken
  cases call with
  | prepare caller set buffer => exact dpuPrepareXfer_ofEnabled kept buffer
  | push caller set args done =>
    by_cases stopped : args.flags = DPU_XFER_NO_RESET ∨ ¬args.Passes caller set
    · exact (dpuPushXferSymbol_keeps done stopped).symm ▸ kept
    · rw [not_or, not_not] at stopped
      intro entry some
      rw [Call.perform, dpuPushXferSymbol_resets done stopped.2 stopped.1] at some
      by_cases own : set.Owns caller entry
      · exact absurd ((resetXfer_spec kept entry).1 own) some
      · exact kept entry ((resetXfer_spec kept entry).2 own ▸ some)

/-- From a state in which only enabled DPUs have buffers, a call keeps the law exactly when it resets as asked. -/
theorem keepsLaw_iff {after : Matrices} (call : Call rankOf) (kept : OfEnabled rankOf matrices)
    (taken : step matrices call after) : KeepsLaw matrices call after ↔ ResetsAsAsked matrices call := by
  subst taken
  cases call with
  | prepare caller set buffer => exact iff_of_true (fun entry other => dpuPrepareXfer_others buffer other) trivial
  | push caller set args done =>
    simp only [KeepsLaw, ResetsAsAsked, Call.perform]
    have alone : args.flags = DPU_XFER_NO_RESET → args.flags &&& DPU_XFER_NO_RESET ≠ 0#32 := fun same => by
      rw [same]
      decide
    by_cases stopped : args.flags = DPU_XFER_NO_RESET ∨ ¬args.Passes caller set
    · rw [dpuPushXferSymbol_keeps done stopped]
      by_cases reset : args.flags &&& DPU_XFER_NO_RESET = 0#32
      · have refused : ¬args.Passes caller set := stopped.resolve_left fun same => alone same reset
        simp [reset, refused]
      · simp [reset, stopped]
    · obtain ⟨mixed, passes⟩ := not_or.mp stopped
      rw [not_not] at passes
      rw [dpuPushXferSymbol_resets done passes mixed]
      have spec := @resetXfer_spec _ caller set _ kept
      by_cases reset : args.flags &&& DPU_XFER_NO_RESET = 0#32
      · exact iff_of_true ⟨fun entry => (spec entry).2, fun _ entry => (spec entry).1, absurd reset⟩
          (.inr (.inl ⟨reset, passes⟩))
      · constructor
        · intro law
          refine .inl fun entry own => ?_
          rw [← law.2.2 reset]
          exact (spec entry).1 own
        · rintro (empty | asked | asked)
          · refine ⟨fun entry => (spec entry).2, fun asked => absurd asked reset, fun _ => ?_⟩
            funext entry
            by_cases own : set.Owns caller entry
            · rw [(spec entry).1 own, empty entry own]
            · exact (spec entry).2 own
          · exact absurd asked.1 reset
          · exact absurd asked.2 stopped

end Steps

/-- In every run of prepares and pushes every call keeps the law if and only if every push resets as asked. -/
theorem keepsLaw_run_iff {history : List (Transitions.Transition Matrices (Call rankOf))} {matrices : Matrices}
    (run : Transitions.Run step (fun _ => 0) history matrices) :
    (∀ τ ∈ history, KeepsLaw τ.before τ.action τ.after) ↔ ∀ τ ∈ history, ResetsAsAsked τ.before τ.action :=
  run.forall_transition_iff (I := OfEnabled rankOf) (P := fun τ => KeepsLaw τ.before τ.action τ.after)
    (fun _ some => absurd rfl some) (fun _ call _ kept taken => step_ofEnabled call kept taken)
    fun _ call _ kept taken => keepsLaw_iff call kept taken

/-- Ranks of one enabled DPU each. -/
def oneDpuRanks (_ : Nat) : Rank := MramAccess.dpuOnlyRank 1 one_le_DPU_MAX_NR_CIS

/-- A thread that runs no callback, where the ranks have no failed jobs. -/
def userThread : Caller := ⟨1, fun _ => ⟨false, 0, .ok⟩⟩

/-- A push of 8 bytes to a symbol in the MRAM. -/
def pushArgs (flags : BitVec 32) : PushArgs := ⟨.toDpu, ⟨0x08000000#32, 64#32⟩, 0#32, 8#64, flags⟩

/-- The pointers after a buffer has been prepared for one rank. -/
def preparedMatrices : Matrices :=
  (dpuPrepareXfer userThread 4096 (fun _ => 0) (.ranks [0] : XferSet oneDpuRanks)).2

theorem prepare_run : Transitions.Run (@step oneDpuRanks) (fun _ => 0)
    [⟨fun _ => 0, .prepare userThread (.ranks [0]) 4096, preparedMatrices⟩] preparedMatrices :=
  .next .start rfl

theorem keepsLaw_run_default : KeepsLaw preparedMatrices
    (.push userThread (.ranks [0] : XferSet oneDpuRanks) (pushArgs 0#32) .ok)
    (resetXfer userThread preparedMatrices (.ranks [0] : XferSet oneDpuRanks)) := by
  have passes : (pushArgs 0#32).Passes userThread (.ranks [0] : XferSet oneDpuRanks) :=
    ⟨by decide, DpuXfer.noConfusion, rfl⟩
  have run := prepare_run.next (a := .push userThread (.ranks [0]) (pushArgs 0#32) .ok) rfl
  rw [Call.perform, dpuPushXferSymbol_resets _ passes (by decide)] at run
  refine (keepsLaw_run_iff run).mpr ?_ _ List.mem_cons_self
  rw [List.forall_mem_cons, List.forall_mem_singleton]
  exact ⟨.inr (.inl ⟨by decide, passes⟩), trivial⟩

/-- An asynchronous push with `DPU_XFER_NO_RESET` clears the pointers. -/
theorem asyncNoReset_clears : ¬∀ rankOf (history : List (Transitions.Transition Matrices (Call rankOf))) matrices,
    Transitions.Run step (fun _ => 0) history matrices → ∀ τ ∈ history, KeepsLaw τ.before τ.action τ.after := by
  intro always
  have run :=
    prepare_run.next (a := .push userThread (.ranks [0]) (pushArgs (DPU_XFER_NO_RESET ||| DPU_XFER_ASYNC)) .ok) rfl
  have kept := congrFun ((always _ _ _ run _ List.mem_cons_self).2.2 (by decide)) ⟨0, false, 0⟩
  revert kept
  decide

end Upmem.XferBuffers
