import Upmem.ThreadJob

namespace Upmem
open Transitions
variable {ρ : Type}

/-- Two ranks have the same device, whatever their FIFOs and threads do. -/
def HostRank.SameDevice (before after : HostRank ρ) : Prop :=
  after.rank = before.rank ∧ after.run = before.run ∧ after.fault = before.fault ∧ after.phase = before.phase

/-- What a step that neither aborts nor begins a preempted launch can do to
the device of a rank. -/
inductive DeviceStep (r : HostRank ρ) : HostRank ρ → Prop
  | same {after} : r.SameDevice after → DeviceStep r after
  | bootRank (current : Bool) (commands : LaunchCommands) : DeviceStep r (r.bootRank current commands).2
  | bootDpu {ci dpu} (commands : LaunchCommands) : ci < r.rank.nrCis → dpu < r.rank.nrDpusPerCi →
      DeviceStep r (r.bootDpu ci dpu commands).2
  | poll (status : DpuError) : DeviceStep r (r.poll status)
  | progress (run fault : Nat → DpuBitfield) :
      (∀ ci dpu, (run ci).getLsbD dpu = true → (r.run ci).getLsbD dpu = true) →
      (∀ ci dpu, (r.fault ci).getLsbD dpu = true → (fault ci).getLsbD dpu = true) →
      DeviceStep r (r.progress run fault)
  | reset (call : ResetCall → DpuError) (run fault : Nat → DpuBitfield) : DeviceStep r (r.reset call run fault)

theorem DeviceStep.refl (r : HostRank ρ) : DeviceStep r r :=
  .same ⟨rfl, rfl, rfl, rfl⟩

theorem HostRank.SameDevice.trans {first second third : HostRank ρ} (before : first.SameDevice second)
    (after : second.SameDevice third) : first.SameDevice third :=
  ⟨after.1.trans before.1, after.2.1.trans before.2.1, after.2.2.1.trans before.2.2.1,
    after.2.2.2.trans before.2.2.2⟩

@[simp] theorem Host.insertRankList_ranks (h : Host ρ) (r : ρ) (job : Option (Job ρ)) :
    (h.insertRankList r job).ranks = h.ranks := by
  cases job <;> rfl

variable [DecidableEq ρ]

/-- What happens in the host library or in its hardware. -/
inductive HostAction (ρ : Type)
  /-- A step of a worker thread of a rank. -/
  | worker (owner : ρ) (i : Nat)
  /-- A call of the API adds jobs to the FIFO of a rank. -/
  | addJobs (rank : ρ)
  /-- A synchronous call on one rank inside a callback computes its job itself. -/
  | inlineJob (rank : ρ)
  | initObject (object : Nat)
  /-- The polling thread polls a rank. -/
  | poll (rank : ρ)
  | progress (rank : ρ)
  | reset (rank : ρ)
  | launchPreempt
  /-- The caller or the poller of the preempted launch makes a step. -/
  | call (action : CallAction)

/-- The steps of the caller and the poller that touch nothing but their own state. -/
def CallAction.isLocal : CallAction → Bool
  | .check _ _ _ => false
  | .abort => false
  | _ => true

/-- One iteration of `abort_struggling_dpus` or `abort_struggling_dpus_advance`,
as far as it goes beyond the arrays of the poller. -/
inductive HostAbort (h : Host ρ) : Host ρ → Prop
  | last {i} : h.call.poller = .abort i → h.call.preempt.nrRank ≤ i → HostAbort h h
  | spare {i} : h.call.poller = .abort i → i < h.call.preempt.nrRank → h.call.preempt.rankDone i ≠ 0 →
      HostAbort h h
  | restart {i} (call : ResetCall → DpuError) (run fault : Nat → DpuBitfield) :
      h.call.poller = .abort i → i < h.call.preempt.nrRank → h.call.preempt.rankDone i = 0 → h.kind = .restart →
      HostAbort h (h.setRank (h.setRanks i) ((h.ranks (h.setRanks i)).abortStrugglingDpu call run fault))
  | advance {i} :
      h.call.poller = .abort i → i < h.call.preempt.nrRank → h.call.preempt.rankDone i = 0 → h.kind = .advance →
      HostAbort h (h.setRank (h.setRanks i) (h.ranks (h.setRanks i)).abortStrugglingDpuAdvance)

/-- One step of the host library. The locks of the ranks are left out, so that
more interleavings are allowed than the code has. -/
inductive HostStep : Host ρ → HostAction ρ → Host ρ → Prop
  | stop {h : Host ρ} {o i} : h.workers o i = .wait → i < (h.ranks o).nrThreads → (h.ranks o).shouldStop = true →
      HostStep h (.worker o i) (h.setWorker o i .exited)
  | take {h : Host ρ} {o i r job rest} : h.workers o i = .wait → i < (h.ranks o).nrThreads →
      (h.ranks o).shouldStop = false → h.queue (h.ranks o).queueIdx = (r, job) :: rest →
      HostStep h (.worker o i) ((h.setQueue (h.ranks o).queueIdx rest).setWorker o i (.compute r job))
  | bootRank {h : Host ρ} {o i r launch} (commands : LaunchCommands) :
      h.workers o i = .compute r (.launchRank launch) →
      HostStep h (.worker o i)
        ((h.setRank r ((h.ranks r).bootRank (launch == some h.launches) commands).2).setWorker o i
          (if ((h.ranks r).bootRank (launch == some h.launches) commands).1 = .ok then .sync r none else .failed r))
  | bootDpu {h : Host ρ} {o i r ci dpu} (commands : LaunchCommands) :
      h.workers o i = .compute r (.launchDpu ci dpu) →
      ci < (h.ranks r).rank.nrCis → dpu < (h.ranks r).rank.nrDpusPerCi →
      HostStep h (.worker o i)
        ((h.setRank r ((h.ranks r).bootDpu ci dpu commands).2).setWorker o i
          (if ((h.ranks r).bootDpu ci dpu commands).1 = .ok then .sync r (some (ci, dpu)) else .failed r))
  | syncRank {h : Host ρ} {o i r} (status : DpuError) : h.workers o i = .sync r none →
      (h.ranks r).rank.runContext.nbDpuRunning = 0 ∨ (h.ranks r).rank.runContext.pollStatus ≠ .ok →
      HostStep h (.worker o i) (h.setWorker o i (.finish status r))
  | syncDpu {h : Host ρ} {o i r ci dpu} (status : DpuError) : h.workers o i = .sync r (some (ci, dpu)) →
      dpuMaskIsSelected ((h.ranks r).rank.runContext.dpuRunning ci) dpu = false →
      HostStep h (.worker o i) (h.setWorker o i (.finish status r))
  | syncJob {h : Host ρ} {o i r object} : h.workers o i = .compute r (.sync object) →
      HostStep h (.worker o i) ((h.setObject object (h.objects object - 1)).setWorker o i (.advance r))
  | copyToMram {h : Host ρ} {o i r offset size} (status : DpuError) :
      h.workers o i = .compute r (.copyToMram offset size) →
      HostStep h (.worker o i)
        (h.setWorker o i (.finish (guardedStatus (dpuCopyToMrams offset size (h.ranks r).rank) status) r))
  | copyFromMram {h : Host ρ} {o i r offset size} (status : DpuError) :
      h.workers o i = .compute r (.copyFromMram offset size) →
      HostStep h (.worker o i)
        (h.setWorker o i (.finish (guardedStatus (dpuCopyFromMrams offset size (h.ranks r).rank) status) r))
  | other {h : Host ρ} {o i r} (status : DpuError) : h.workers o i = .compute r .other →
      HostStep h (.worker o i) (h.setWorker o i (.finish status r))
  | callbackAwaits {h : Host ρ} {o i r info} : h.workers o i = .compute r (.callback info) →
      h.objects info.object ≠ 1 →
      HostStep h (.worker o i)
        ((h.setObject info.object (h.objects info.object - 1)).setWorker o i
          (if !info.isNonblocking && info.isSingleCall && !info.isSync then .wait else .advance r))
  | callbackNonblocking {h : Host ρ} {o i r info} : h.workers o i = .compute r (.callback info) →
      h.objects info.object = 1 → info.isNonblocking = true →
      HostStep h (.worker o i)
        ((((h.setObject info.object 0).setJobs r (h.ranks r).jobs.tail).insertRankList r
          (h.ranks r).jobs.tail.head?).setWorker o i .detached)
  | callbackBlocking {h : Host ρ} {o i r info} : h.workers o i = .compute r (.callback info) →
      h.objects info.object = 1 → info.isNonblocking = false →
      HostStep h (.worker o i)
        (((h.setObject info.object 0).setCallbackTid info.ranks true).setWorker o i (.callback r info))
  | callbackReturns {h released : Host ρ} {o i r info} (status : DpuError) : h.workers o i = .callback r info →
      (if info.isSingleCall && !info.isSync then
          Host.handleGlobalBlock r info.ranks (h.setCallbackTid info.ranks false)
        else some (h.setCallbackTid info.ranks false)) = some released →
      HostStep h (.worker o i) (released.setWorker o i (.finish status r))
  | detachedReturns {h : Host ρ} {o i} : h.workers o i = .detached →
      HostStep h (.worker o i) (h.setWorker o i .wait)
  | advance {h : Host ρ} {o i r} : h.workers o i = .advance r →
      HostStep h (.worker o i)
        ((h.setJobs r (h.ranks r).jobs.tail).setWorker o i
          (match (h.ranks r).jobs.tail with
            | [] => .wait
            | next :: _ => .compute r next))
  | failed {h : Host ρ} {o i r} : h.workers o i = .failed r →
      HostStep h (.worker o i) ((h.updateStatus r).setWorker o i .wait)
  | addJobs {h : Host ρ} {r : ρ} (first : Job ρ) (rest : List (Job ρ)) :
      (∀ job ∈ first :: rest, job = .launchRank (some h.launches) → h.call.caller = .doJobs) →
      HostStep h (.addJobs r) (h.addJobs r first rest)
  | inlineLaunchRank {h : Host ρ} {r launch} (commands : LaunchCommands) : (h.ranks r).callbackTidSet = true →
      (launch = some h.launches → h.call.caller = .doJobs) →
      HostStep h (.inlineJob r) (h.setRank r ((h.ranks r).bootRank (launch == some h.launches) commands).2)
  | inlineLaunchDpu {h : Host ρ} {r ci dpu} (commands : LaunchCommands) : (h.ranks r).callbackTidSet = true →
      ci < (h.ranks r).rank.nrCis → dpu < (h.ranks r).rank.nrDpusPerCi →
      HostStep h (.inlineJob r) (h.setRank r ((h.ranks r).bootDpu ci dpu commands).2)
  | initObject {h : Host ρ} {object} (nrRanks : Nat) : HostStep h (.initObject object) (h.setObject object nrRanks)
  | poll {h : Host ρ} {r} (status : DpuError) : (h.ranks r).rank.runContext.nbDpuRunning ≠ 0 →
      HostStep h (.poll r) (h.setRank r ((h.ranks r).poll status))
  | progress {h : Host ρ} {r} (run fault : Nat → DpuBitfield) :
      (∀ ci dpu, (run ci).getLsbD dpu = true → ((h.ranks r).run ci).getLsbD dpu = true) →
      (∀ ci dpu, ((h.ranks r).fault ci).getLsbD dpu = true → (fault ci).getLsbD dpu = true) →
      HostStep h (.progress r) (h.setRank r ((h.ranks r).progress run fault))
  | reset {h : Host ρ} {r} (call : ResetCall → DpuError) (run fault : Nat → DpuBitfield) :
      HostStep h (.reset r) (h.setRank r ((h.ranks r).reset call run fault))
  | launchPreempt {h : Host ρ} (setup : CallSetup) (kind : LaunchKind) (setRanks : Nat → ρ) (syncObject : Nat) :
      h.call.caller = .returned →
      HostStep h .launchPreempt { h with
        ranks := fun r => { h.ranks r with phase := .pending }
        objects := Function.update h.objects syncObject setup.syncNrRanks
        call := .start setup
        kind := kind
        setRanks := setRanks
        syncObject := syncObject
        launches := h.launches + 1 }
  | call {h : Host ρ} {c} (action : CallAction) : action.isLocal = true → h.call.step action = some c →
      (action = .doJobs → h.call.setup.synchronous = true → h.objects h.syncObject = 0) →
      HostStep h (.call action) (h.setCall c)
  | check {h : Host ρ} {c i elapsedTime} : h.call.poller = .check i →
      h.call.step (.check (dpuStatusRank (h.ranks (h.setRanks i)).rank).1
        (dpuStatusRank (h.ranks (h.setRanks i)).rank).2 elapsedTime) = some c →
      HostStep h (.call (.check (dpuStatusRank (h.ranks (h.setRanks i)).rank).1
        (dpuStatusRank (h.ranks (h.setRanks i)).rank).2 elapsedTime)) (h.setCall c)
  | abort {h aborted : Host ρ} {c} : HostAbort h aborted → h.call.step .abort = some c →
      HostStep h (.call .abort) (aborted.setCall c)

/-- What `dpu_alloc` makes of a rank: no DPU runs, nothing is queued and the
worker threads look for work. -/
structure HostRank.Allocated (r : HostRank ρ) : Prop where
  counter : r.rank.runContext.nbDpuRunning = 0
  bitmaps : ∀ ci < r.rank.nrCis, r.rank.runContext.dpuRunning ci = dpuMaskEmpty
  phase : r.phase = .pending
  shouldStop : r.shouldStop = false
  jobs : r.jobs = []
  callbackTidSet : r.callbackTidSet = false

structure Host.Allocated (h : Host ρ) : Prop where
  ranks : ∀ r, (h.ranks r).Allocated
  queue : ∀ q, h.queue q = []
  workers : ∀ r i, h.workers r i = .wait
  call : h.call = { Call.start ⟨0, true, false, 0, fun _ => 0⟩ with caller := .returned }

abbrev HostRun (start : Host ρ) (history : List (Transition (Host ρ) (HostAction ρ))) (h : Host ρ) : Prop :=
  Run HostStep start history h

theorem Host.setRank_device {h : Host ρ} {r : ρ} {value : HostRank ρ} (here : DeviceStep (h.ranks r) value)
    (each : ρ) : DeviceStep (h.ranks each) ((h.setRank r value).ranks each) := by
  by_cases same : each = r
  · subst same
    simpa [Host.setRank] using here
  · simpa [Host.setRank, Function.update_of_ne same] using .refl (h.ranks each)

theorem Host.setJobs_sameDevice (h : Host ρ) (r : ρ) (jobs : List (Job ρ)) (each : ρ) :
    (h.ranks each).SameDevice ((h.setJobs r jobs).ranks each) := by
  by_cases same : each = r
  · subst same
    simp [Host.setJobs, Host.setRank, HostRank.SameDevice]
  · simp [Host.setJobs, Host.setRank, Function.update_of_ne same, HostRank.SameDevice]

theorem Host.setCallbackTid_sameDevice (h : Host ρ) (ranks : List ρ) (value : Bool) (each : ρ) :
    (h.ranks each).SameDevice ((h.setCallbackTid ranks value).ranks each) := by
  by_cases member : each ∈ ranks <;> simp [Host.setCallbackTid, member, HostRank.SameDevice]

theorem Host.handleGlobalBlock_sameDevice {rank : ρ} {ranks : List ρ} {h released : Host ρ}
    (handled : Host.handleGlobalBlock rank ranks h = some released) (each : ρ) :
    (h.ranks each).SameDevice (released.ranks each) := by
  induction ranks generalizing h with
  | nil =>
    obtain rfl := Option.some.inj handled
    exact ⟨rfl, rfl, rfl, rfl⟩
  | cons other others ih =>
    rw [Host.handleGlobalBlock] at handled
    split_ifs at handled with same
    · exact ih handled
    · split at handled
      · cases handled
      · rename_i next later _
        have kept := Host.setJobs_sameDevice h other (next :: later) each
        have rest := ih handled
        exact kept.trans rest

theorem Host.addJobs_sameDevice (h : Host ρ) (r : ρ) (first : Job ρ) (rest : List (Job ρ)) (each : ρ) :
    (h.ranks each).SameDevice ((h.addJobs r first rest).ranks each) := by
  unfold Host.addJobs
  simp only []
  split_ifs <;> exact Host.setJobs_sameDevice _ r _ each

/-- What a step of the host does to the devices: at most what a `DeviceStep`
does to each of them, unless it begins a preempted launch or is an iteration
of the abort loop. -/
theorem HostStep.device {s t : Host ρ} {a : HostAction ρ} (step : HostStep s a t) :
    (a ≠ .call .abort ∧ ∀ r, DeviceStep (s.ranks r) (t.ranks r)) ∨
      (a = .launchPreempt ∧ ∀ r, t.ranks r = { s.ranks r with phase := .pending }) ∨
      ∃ aborted c, a = .call .abort ∧ HostAbort s aborted ∧ s.call.step .abort = some c ∧
      t = aborted.setCall c := by
  cases step with
  | stop | take | syncRank | syncDpu | syncJob | copyToMram | copyFromMram | other | callbackAwaits
    | detachedReturns | initObject | check => exact .inl ⟨by simp, fun r => .refl (s.ranks r)⟩
  | call action isLocal taken awaited =>
    refine .inl ⟨?_, fun r => .refl (s.ranks r)⟩
    rintro ⟨rfl⟩
    cases isLocal
  | bootRank commands => exact .inl ⟨by simp, fun r => Host.setRank_device (.bootRank _ commands) r⟩
  | bootDpu commands _ ciInside dpuInside =>
    exact .inl ⟨by simp, fun r => Host.setRank_device (.bootDpu commands ciInside dpuInside) r⟩
  | @callbackNonblocking o i r info =>
    have kept := Host.setJobs_sameDevice (s.setObject info.object 0) r (s.ranks r).jobs.tail
    refine .inl ⟨by simp, fun each => .same ?_⟩
    simp only [Host.setWorker, Host.insertRankList_ranks]
    exact kept each
  | callbackBlocking => exact .inl ⟨by simp, fun r => .same (Host.setCallbackTid_sameDevice _ _ _ r)⟩
  | callbackReturns status _ released =>
    refine .inl ⟨by simp, fun r => .same ?_⟩
    split_ifs at released
    · exact (Host.setCallbackTid_sameDevice s _ _ r).trans (Host.handleGlobalBlock_sameDevice released r)
    · obtain rfl := Option.some.inj released
      exact Host.setCallbackTid_sameDevice s _ _ r
  | advance | failed => exact .inl ⟨by simp, fun r => .same (Host.setJobs_sameDevice s _ _ r)⟩
  | addJobs first rest => exact .inl ⟨by simp, fun r => .same (Host.addJobs_sameDevice s _ first rest r)⟩
  | inlineLaunchRank commands => exact .inl ⟨by simp, fun r => Host.setRank_device (.bootRank _ commands) r⟩
  | inlineLaunchDpu commands _ ciInside dpuInside =>
    exact .inl ⟨by simp, fun r => Host.setRank_device (.bootDpu commands ciInside dpuInside) r⟩
  | poll status _ => exact .inl ⟨by simp, fun r => Host.setRank_device (.poll status) r⟩
  | progress run fault less more =>
    exact .inl ⟨by simp, fun r => Host.setRank_device (.progress run fault less more) r⟩
  | reset call run fault => exact .inl ⟨by simp, fun r => Host.setRank_device (.reset call run fault) r⟩
  | launchPreempt => exact .inr (.inl ⟨rfl, fun _ => rfl⟩)
  | abort aborted taken => exact .inr (.inr ⟨_, _, rfl, aborted, taken, rfl⟩)

/-- `dpu_thread_handle_global_block` touches the FIFOs and the queues only. -/
theorem Host.handleGlobalBlock_frame {rank : ρ} {ranks : List ρ} {h released : Host ρ}
    (handled : Host.handleGlobalBlock rank ranks h = some released) :
    released = { h with ranks := released.ranks, queue := released.queue } := by
  induction ranks generalizing h with
  | nil =>
    obtain rfl := Option.some.inj handled
    rfl
  | cons other others ih =>
    rw [Host.handleGlobalBlock] at handled
    split_ifs at handled with same
    · exact ih handled
    · split at handled
      · cases handled
      · exact (ih handled).trans rfl

theorem HostAbort.call {s aborted : Host ρ} (abort : HostAbort s aborted) :
    aborted.call = s.call ∧ aborted.setRanks = s.setRanks := by
  cases abort <;> exact ⟨rfl, rfl⟩

/-- What a step of the host does to the preempted launch in progress. -/
theorem HostStep.call_step {s t : Host ρ} {a : HostAction ρ} (step : HostStep s a t) :
    ((∀ action, a ≠ .call action) ∧ a ≠ .launchPreempt ∧ t.call = s.call ∧ t.setRanks = s.setRanks) ∨
      (a = .launchPreempt ∧ ∃ setup, t.call = .start setup) ∨
      ∃ action, a = .call action ∧ s.call.step action = some t.call ∧ t.setRanks = s.setRanks := by
  cases step with
  | launchPreempt setup => exact .inr (.inl ⟨rfl, setup, rfl⟩)
  | call action isLocal taken => exact .inr (.inr ⟨_, rfl, taken, rfl⟩)
  | check at_poller taken => exact .inr (.inr ⟨_, rfl, taken, rfl⟩)
  | abort abort taken => exact .inr (.inr ⟨_, rfl, taken, abort.call.2⟩)
  | callbackReturns status _ released =>
    refine .inl ⟨by simp, by simp, ?_⟩
    split_ifs at released
    · rw [Host.handleGlobalBlock_frame released]
      exact ⟨rfl, rfl⟩
    · obtain rfl := Option.some.inj released
      exact ⟨rfl, rfl⟩
  | @callbackNonblocking o i r info =>
    refine .inl ⟨by simp, by simp, ?_⟩
    cases (s.ranks r).jobs.tail.head? <;> exact ⟨rfl, rfl⟩
  | addJobs first rest =>
    refine .inl ⟨by simp, by simp, ?_⟩
    unfold Host.addJobs
    simp only []
    split_ifs <;> exact ⟨rfl, rfl⟩
  | stop | take | bootRank | bootDpu | syncRank | syncDpu | syncJob | copyToMram | copyFromMram | other
    | callbackAwaits | callbackBlocking | detachedReturns | advance | failed | inlineLaunchRank | inlineLaunchDpu
    | initObject | poll | progress | reset => exact .inl ⟨by simp, by simp, rfl, rfl⟩

/-- The poller reads the status of a rank off the bitmaps of its run context. -/
theorem HostStep.check_status {s t : Host ρ} {rankDone rankFault : Bool} {elapsedTime i : Nat}
    (step : HostStep s (.call (.check rankDone rankFault elapsedTime)) t) (at_poller : s.call.poller = .check i) :
    (rankDone, rankFault) = dpuStatusRank (s.ranks (s.setRanks i)).rank ∧ ∀ r, t.ranks r = s.ranks r := by
  cases step with
  | call action isLocal => cases isLocal
  | @check _ j _ at_check _ =>
    obtain rfl : i = j := PollerPc.check.inj (at_poller.symm.trans at_check)
    exact ⟨rfl, fun _ => rfl⟩

/-- A rank with a single DPU, which is enabled and does not run. -/
def singleRank : Rank where
  description :=
    { topology := { nrOfControlInterfaces := 1, nrOfDpusPerControlInterface := 1, cis_le := one_le_DPU_MAX_NR_CIS,
                    dpus_le := one_le_DPU_MAX_NR_DPUS_PER_CI }
      nrOfThreads := 24, mramSize := 0x4000000#32, mramAccessByDpuOnly := false, apiMustSwitchMramMux := true
      initMramMux := true, doIramRepair := false, doWramRepair := false }
  dpus := fun _ _ =>
    { enabled := true
      iramRepair := { corruptedAddresses := fun _ => ⟨0#32, 0#64⟩, nrOfCorruptedAddresses := 0 }
      wramRepair := fun _ => { corruptedAddresses := fun _ => ⟨0#32, 0#64⟩, nrOfCorruptedAddresses := 0 } }
  nrDpusEnabled := 1
  sliceInfo := fun _ => { hostMuxMramState := 0#8, enabledDpus := 1#32, allDpusAreEnabled := true }
  runContext := { dpuRunning := fun _ => 0#8, dpuInFault := fun _ => 0#8, pollStatus := .ok, nbDpuRunning := 0 }

/-- A host with a single rank, served by one worker thread. -/
def Host.single (launches : Nat) (kind : LaunchKind) (objects : Nat → Nat) (call : Call) (rank : HostRank Unit)
    (entries : List (Unit × Job Unit)) (pc : WorkerPc Unit) : Host Unit where
  ranks _ := rank
  queue q := if q = 0 then entries else []
  workers _ i := if i = 0 then pc else .wait
  objects := objects
  call := call
  kind := kind
  setRanks _ := ()
  syncObject := 0
  launches := launches

section
variable {launches : Nat} {kind : LaunchKind} {objects : Nat → Nat} {call : Call} {rank : HostRank Unit}
  {entries : List (Unit × Job Unit)} {pc : WorkerPc Unit}

@[simp] theorem Host.single_setRank (value : HostRank Unit) :
    (Host.single launches kind objects call rank entries pc).setRank () value =
      Host.single launches kind objects call value entries pc := by
  have ranks : Function.update (fun _ : Unit => rank) () value = fun _ => value := funext fun _ => by simp
  simp [Host.single, Host.setRank, ranks]

@[simp] theorem Host.single_setCall (value : Call) :
    (Host.single launches kind objects call rank entries pc).setCall value =
      Host.single launches kind objects value rank entries pc := rfl

@[simp] theorem Host.single_setWorker (value : WorkerPc Unit) :
    (Host.single launches kind objects call rank entries pc).setWorker () 0 value =
      Host.single launches kind objects call rank entries value := by
  have workers : Function.update (fun _ : Unit => fun i : Nat => if i = 0 then pc else .wait) ()
      (Function.update (fun i => if i = 0 then pc else .wait) 0 value) = fun _ i => if i = 0 then
          value else .wait := by
    funext _ i
    by_cases zero : i = 0 <;> simp [zero]
  simp only [Host.single, Host.setWorker, workers]

@[simp] theorem Host.single_setQueue (value : List (Unit × Job Unit)) :
    (Host.single launches kind objects call rank entries pc).setQueue 0 value =
      Host.single launches kind objects call rank value pc := by
  have queue : Function.update (fun q : Nat => if q = 0 then entries else []) 0 value =
      fun q => if q = 0 then value else [] := by
    funext q
    by_cases zero : q = 0 <;> simp [zero]
  simp only [Host.single, Host.setQueue, queue]

end

/-- The rank of the single host before anything runs. -/
def singleHostRank (jobs : List (Job Unit)) : HostRank Unit where
  rank := singleRank
  run _ := 0#8
  fault _ := 0#8
  phase := .pending
  shouldStop := false
  queueIdx := 0
  nrThreads := 1
  jobs := jobs
  callbackTidSet := false

def Call.idle : Call := { Call.start ⟨0, true, false, 0, fun _ => 0⟩ with caller := .returned }

def Host.singleStart : Host Unit := Host.single 0 .restart (fun _ => 0) .idle (singleHostRank []) [] .wait

theorem Host.singleStart_allocated : Host.singleStart.Allocated where
  ranks _ := ⟨rfl, fun _ _ => rfl, rfl, rfl, rfl, rfl⟩
  queue q := by simp [Host.singleStart, Host.single]
  workers _ i := by simp [Host.singleStart, Host.single]
  call := rfl

def okCommands : LaunchCommands := ⟨.ok, .ok, .ok, .ok⟩

/-- A preempted launch on the single rank, once its poller has been created. -/
def singleCall : Call :=
  { Call.start (.onRanks 1 fun _ => 0) with preempt := initPreempt 1, poller := .test, caller := .doJobs }

/-- The counters while the launch on the single rank waits for its SYNC job. -/
def singleObjects : Nat → Nat := Function.update (fun _ => 0) 0 1

theorem Host.single_launched (kind : LaunchKind) : ∃ history,
    HostRun Host.singleStart history (Host.single 1 kind singleObjects singleCall (singleHostRank [])
      [] .wait) := by
  have begun : HostRun Host.singleStart _
      (Host.single 1 kind singleObjects (Call.start (.onRanks 1 fun _ => 0)) (singleHostRank []) [] .wait) :=
    Run.start.next (.launchPreempt (.onRanks 1 fun _ => 0) kind (fun _ => ()) 0 rfl)
  have polled := begun.next (.call (.getJobs true) rfl rfl (by simp))
  exact ⟨_, polled⟩

/-- The LAUNCH job of the launch on the single rank, and its SYNC job. -/
def singleJobs : List (Job Unit) := [.launchRank (some 1), .sync 0]

/-- The single rank once the LAUNCH job has booted it. -/
def singleBooted : HostRank Unit := ((singleHostRank singleJobs).bootRank true okCommands).2

theorem Host.single_booted (kind : LaunchKind) : ∃ history,
    HostRun Host.singleStart history (Host.single 1 kind singleObjects singleCall singleBooted []
      (.sync () none)) := by
  obtain ⟨history, run⟩ := Host.single_launched kind
  have added : HostStep (Host.single 1 kind singleObjects singleCall (singleHostRank []) [] .wait) (.addJobs ())
      (Host.single 1 kind singleObjects singleCall (singleHostRank singleJobs) [((),
          .launchRank (some 1))] .wait) := by
    have inserted : (Host.single 1 kind singleObjects singleCall (singleHostRank []) [] .wait).addJobs ()
        (.launchRank (some 1)) [.sync 0] =
          Host.single 1 kind singleObjects singleCall (singleHostRank singleJobs)
          [((), .launchRank (some 1))] .wait :=
      (congrArg (Host.setRank · () (singleHostRank singleJobs))
        (Host.single_setQueue [((), .launchRank (some 1))])).trans (Host.single_setRank _)
    rw [← inserted]
    exact .addJobs _ _ fun _ _ _ => rfl
  have taken : HostStep (Host.single 1 kind singleObjects singleCall (singleHostRank singleJobs)
      [((), .launchRank (some 1))] .wait) (.worker () 0)
      (Host.single 1 kind singleObjects singleCall (singleHostRank singleJobs) []
        (.compute () (.launchRank (some 1)))) := by
    have step := @HostStep.take Unit _ (Host.single 1 kind singleObjects singleCall (singleHostRank singleJobs)
      [((), .launchRank (some 1))] .wait) () 0 _ _ _ rfl Nat.zero_lt_one rfl rfl
    change HostStep _ _ ((Host.setQueue _ 0 []).setWorker () 0 _) at step
    rwa [Host.single_setQueue, Host.single_setWorker] at step
  have booted : HostStep (Host.single 1 kind singleObjects singleCall (singleHostRank singleJobs) []
      (.compute () (.launchRank (some 1)))) (.worker () 0)
      (Host.single 1 kind singleObjects singleCall singleBooted [] (.sync () none)) := by
    have step :=
      @HostStep.bootRank Unit _ (Host.single 1 kind singleObjects singleCall (singleHostRank singleJobs) []
      (.compute () (.launchRank (some 1)))) () 0 () _ okCommands rfl
    rwa [Host.single_setRank, Host.single_setWorker] at step
  exact ⟨_, ((run.next added).next taken).next booted⟩

/-- The call once its poller has found the booted rank running and begins to abort. -/
def singleAborting : Call :=
  { singleCall with stopPolling := true, clock := 50, entry := some 50, poller := .abort 0 }

theorem Host.single_aborting (kind : LaunchKind) : ∃ history,
    HostRun Host.singleStart history
      (Host.single 1 kind singleObjects singleAborting singleBooted [] (.sync () none)) := by
  obtain ⟨history, run⟩ := Host.single_booted kind
  have tested := run.next (.call .test rfl rfl (by simp))
  have checked := tested.next (@HostStep.check Unit _ _ _ 0 50 rfl rfl)
  have decided := checked.next (@HostStep.check Unit _ _ _ 1 50 rfl rfl)
  have entered := decided.next
    (.call (.decide 50) rfl (Call.step_enterAbort rfl le_rfl determineStruggleDpu_one) (by simp))
  exact ⟨_, entered⟩

end Upmem
