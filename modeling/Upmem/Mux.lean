import Upmem.Mram
import Upmem.Lib.StatusChain
import Upmem.Lib.Transitions

namespace Upmem

/-- A control interface that commands are sent to even for disabled DPUs. -/
def Rank.talks (rank : Rank) (ci : Nat) : Bool :=
  decide (ci < rank.nrCis) && decide ((rank.sliceInfo ci).enabledDpus ≠ 0#32)

namespace Mux
open StatusChain

def TIMEOUT_MUX_STATUS : Nat := 100

/-- `dpu_get_host_mux_mram_state`. -/
def dpuGetHostMuxMramState (rank : Rank) (ci dpu : Nat) : Bool := (rank.sliceInfo ci).hostMuxMramState.getLsbD dpu

/-- `dpu_set_host_mux_mram_state`. -/
def dpuSetHostMuxMramState (ci dpu : Nat) (set : Bool) (rank : Rank) : Rank :=
  { rank with
    sliceInfo := fun eachCi =>
      if eachCi = ci then
        { rank.sliceInfo ci with
          hostMuxMramState :=
            if set then (rank.sliceInfo ci).hostMuxMramState ||| dpuMaskOne dpu
            else (rank.sliceInfo ci).hostMuxMramState &&& ~~~ dpuMaskOne dpu }
      else rank.sliceInfo eachCi }

/-- A rank and the muxes in front of its MRAMs, of which those that hold are at the side of the host. -/
structure MuxState where
  rank : Rank
  mux : Nat → Nat → Bool

/-- How the control interfaces answer while muxes are switched: the status of
the select, of the commands that set the muxes, of those before the reads of
the check and of each read for a DPU, and the number of reads until a mux has
taken its position, whose commands may have arrived even if they failed. -/
structure AccessAnswers where
  select : DpuError
  setMux : DpuError
  check : DpuError
  read : Nat → Nat → DpuError
  delay : Nat → Nat → Nat

/-- The reads of the status of a DPU, until all control interfaces answer as
expected. There is nothing to return before the next DPU is checked when they
do before the last of the reads. -/
def checkReads (unchecked : Bool) (read : Nat → DpuError) (retry : Nat → Bool) : Nat → Nat → Option DpuError
  | 0, _ => none
  | timeout + 1, attempt =>
    if read attempt ≠ .ok then some (read attempt)
    else if timeout = 0 then some (if unchecked then .ok else .timeout)
    else if retry attempt then checkReads unchecked read retry timeout (attempt + 1)
    else none

section Access
variable (unchecked : Bool) (answers : AccessAnswers) (dpus : List Nat) (expected : Nat → Bool)

/-- Some control interface does not read as expected. -/
def shouldRetry (s : MuxState) (dpu attempt : Nat) : Bool :=
  (List.range s.rank.nrCis).any fun ci =>
    s.rank.talks ci && !(s.mux ci dpu == expected ci || decide (answers.delay ci dpu ≤ attempt))

/-- `dpu_check_wavegen_mux_status_for_dpu` and `dpu_check_wavegen_mux_status_for_rank`. -/
def dpuCheckWavegenMuxStatus (s : MuxState) : DpuError :=
  if answers.check ≠ .ok then answers.check
  else (dpus.findSome? fun dpu =>
    checkReads unchecked (answers.read dpu) (shouldRetry answers expected s dpu) TIMEOUT_MUX_STATUS 0).getD .ok

/-- The muxes once `ufi_set_mram_mux` has been sent to all control interfaces with an enabled DPU. -/
def ufiSetMramMux (s : MuxState) (ci dpu : Nat) : Bool :=
  if s.rank.talks ci = true ∧ dpu ∈ dpus ∧ answers.delay ci dpu < TIMEOUT_MUX_STATUS then expected ci
    else s.mux ci dpu

/-- `host_handle_access_for_dpu` and `host_handle_access_for_rank`. -/
def hostHandleAccess (s : MuxState) : DpuError × MuxState :=
  if answers.select ≠ .ok then (answers.select, s)
  else
    let moved := { s with mux := ufiSetMramMux answers dpus expected s }
    if answers.setMux ≠ .ok then (answers.setMux, moved)
    else (dpuCheckWavegenMuxStatus unchecked answers dpus expected s, moved)

end Access

/-- `host_mux_mram_state` of a line of DPUs, with a bit for each control interface. -/
def muxMramMask (rank : Rank) (dpu : Nat) : BitVec 8 :=
  (List.range rank.nrCis).foldl
    (fun mask ci => if dpuGetHostMuxMramState rank ci dpu then mask ||| 1#8 <<< ci else mask) 0#8

def dpuPairBaseId (dpuId : Nat) : Nat := dpuId / 2 * 2

section Switch
variable (unchecked : Bool)

/-- The part of `dpu_switch_mux_for_rank` that touches the muxes. -/
def switchesRank (setMuxForHost : Bool) (rank : Rank) : Bool :=
  decide (rank.runContext.nbDpuRunning = 0) && muxMustSwitch setMuxForHost rank &&
    (rank.description.apiMustSwitchMramMux || rank.description.initMramMux)

/-- `dpu_switch_mux_for_rank`. -/
def dpuSwitchMuxForRank (setMuxForHost : Bool) (answers : AccessAnswers) (s : MuxState) : DpuError × MuxState :=
  let access := hostHandleAccess unchecked answers (List.range s.rank.nrDpusPerCi) (fun _ => setMuxForHost) s
  let result := Upmem.dpuSwitchMuxForRank setMuxForHost access.1 s.rank
  (result.1, ⟨result.2, if switchesRank setMuxForHost s.rank then access.2.mux else s.mux⟩)

/-- The lines of the pair of a DPU whose recorded muxes differ from a mask. -/
def linesToSwitch (dpuId : Nat) (mask : BitVec 8) (rank : Rank) : List Nat :=
  let base := dpuPairBaseId dpuId
  (if muxMramMask rank base ≠ mask then [base] else []) ++
    if base + 1 < rank.nrDpusPerCi ∧ muxMramMask rank (base + 1) ≠ mask then [base + 1] else []

/-- The number of DPUs that run on some lines. -/
def runningOn (lines : List Nat) (rank : Rank) : Nat :=
  let runMask := lines.foldl (fun runMask dpu => runMask ||| dpuMaskOne dpu) dpuMaskEmpty
  rank.sumCis fun ci => dpuMaskCount (dpuMaskIntersection (rank.runContext.dpuRunning ci) runMask)

/-- The mux states recorded before the muxes of some lines are switched. -/
def recordMuxForLines (lines : List Nat) (mask : BitVec 8) (rank : Rank) : Rank :=
  (List.range rank.nrCis).foldl
    (fun rank ci => lines.foldl (fun rank dpu => dpuSetHostMuxMramState ci dpu (mask.getLsbD ci) rank) rank) rank

/-- `dpu_switch_mux_for_dpu_line`, with the answers for each line. -/
def dpuSwitchMuxForDpuLine (dpuId : Nat) (mask : BitVec 8) (answers : Nat → AccessAnswers) (s : MuxState) :
    DpuError × MuxState :=
  let lines := linesToSwitch dpuId mask s.rank
  if lines = [] then (.ok, s)
  else if 0 < runningOn lines s.rank then (.mramBusy, s)
  else
    let recorded := { s with rank := recordMuxForLines lines mask s.rank }
    if !s.rank.description.apiMustSwitchMramMux then (.ok, recorded)
    else loop .ok
      (fun dpu => hostHandleAccess unchecked (answers dpu) [dpu] fun ci => mask.getLsbD ci) lines recorded

/-- The mask that switches the mux of a DPU to the side of the DPU on the
control interfaces of a mask and leaves it as it is recorded on the others. -/
def bootMuxMask (ciMask : BitVec 8) (dpu : Nat) (rank : Rank) : BitVec 8 :=
  (List.range rank.nrCis).foldl
    (fun mask ci =>
      if !ciMask.getLsbD ci && dpuGetHostMuxMramState rank ci dpu then mask ||| 1#8 <<< ci else mask) 0#8

/-- How the commands of a boot are answered, with the mask that the first `ufi_select_all` returns. -/
structure BootAnswers where
  selectAll : DpuError
  ciMask : BitVec 8
  rank : AccessAnswers
  line : Nat → Nat → AccessAnswers
  thread : DpuError

/-- `ci_start_thread_rank`. -/
def ciStartThreadRank (answers : BootAnswers) (s : MuxState) : DpuError × MuxState :=
  if answers.selectAll ≠ .ok then (answers.selectAll, s)
  else
    andThen .ok
      (if answers.ciMask = 0xff#8 then dpuSwitchMuxForRank unchecked false answers.rank
      else loop .ok (fun dpu s => dpuSwitchMuxForDpuLine unchecked dpu (bootMuxMask answers.ciMask dpu s.rank)
        (answers.line dpu) s) (List.range s.rank.nrDpusPerCi))
      (fun s => (answers.thread, s)) s

/-- `ci_start_thread_dpu`. -/
def ciStartThreadDpu (ci dpuId : Nat) (answers : BootAnswers) : MuxState → DpuError × MuxState :=
  andThen .ok (fun s => dpuSwitchMuxForDpuLine unchecked dpuId (bootMuxMask (1#8 <<< ci) dpuId s.rank)
    (answers.line dpuId) s) fun s => (answers.thread, s)

end Switch

end Mux
end Upmem
