import Upmem.Host

namespace Upmem
open Transitions
variable {ρ : Type}

/-- Some rank of a queue has jobs, or the queue itself is not empty. -/
def Host.Pending (h : Host ρ) (q : Nat) : Prop :=
  (∃ r, (h.ranks r).queueIdx = q ∧ (h.ranks r).jobs ≠ []) ∨ h.queue q ≠ []

/-- A worker thread that lives and has not been told to stop serves a queue. -/
def Host.Staffed (h : Host ρ) (q : Nat) : Prop :=
  ∃ o i, (h.ranks o).queueIdx = q ∧ i < (h.ranks o).nrThreads ∧ h.workers o i ≠ .exited ∧
    (h.ranks o).shouldStop = false

def Host.WorkServed (h : Host ρ) : Prop :=
  ∀ q, h.Pending q → h.Staffed q

/-- Some rank of a queue has threads and has not been told to stop. -/
def Host.Serving (h : Host ρ) (q : Nat) : Prop :=
  ∃ o, (h.ranks o).queueIdx = q ∧ 0 < (h.ranks o).nrThreads ∧ (h.ranks o).shouldStop = false

/-- No thread exits before its rank has been told to stop. -/
def Host.ExitStopped (h : Host ρ) : Prop :=
  ∀ o i, h.workers o i = .exited → (h.ranks o).shouldStop = true

theorem Host.ExitStopped.staffed_iff {h : Host ρ} (exited : h.ExitStopped) {q : Nat} :
    h.Staffed q ↔ h.Serving q := by
  constructor
  · rintro ⟨o, i, index, inside, _, running⟩
    exact ⟨o, index, Nat.zero_lt_of_lt inside, running⟩
  · rintro ⟨o, index, threads, running⟩
    refine ⟨o, 0, index, threads, fun gone => ?_, running⟩
    simp [exited o 0 gone] at running

theorem Host.ExitStopped.forall_serving_iff {h : Host ρ} (exited : h.ExitStopped) :
    h.WorkServed ↔ ∀ q, h.Pending q → h.Serving q :=
  forall₂_congr fun _ _ => exited.staffed_iff

theorem Host.Allocated.exitStopped {h : Host ρ} (allocated : h.Allocated) : h.ExitStopped := by
  intro o i gone
  rw [allocated.workers o i] at gone
  cases gone

theorem Host.Allocated.workServed {h : Host ρ} (allocated : h.Allocated) : h.WorkServed := by
  rintro q (⟨r, _, some⟩ | queued)
  · exact absurd (allocated.ranks r).jobs some
  · exact absurd (allocated.queue q) queued

/-- The threads of a rank, whatever its device and its FIFO do. -/
def HostRank.SameThreads (before after : HostRank ρ) : Prop :=
  after.queueIdx = before.queueIdx ∧ after.nrThreads = before.nrThreads ∧ after.shouldStop = before.shouldStop

/-- No thread is told to stop, and no queue gets work that had none. -/
structure Host.WorkFrame (s t : Host ρ) : Prop where
  threads : ∀ r, (s.ranks r).SameThreads (t.ranks r)
  pending : ∀ q, t.Pending q → s.Pending q

theorem Host.WorkFrame.refl (h : Host ρ) : h.WorkFrame h :=
  ⟨fun _ => ⟨rfl, rfl, rfl⟩, fun _ => id⟩

theorem Host.WorkFrame.trans {first second third : Host ρ} (before : first.WorkFrame second)
    (after : second.WorkFrame third) : first.WorkFrame third := by
  refine ⟨fun r => ?_, fun q work => before.pending q (after.pending q work)⟩
  obtain ⟨index, threads, stop⟩ := before.threads r
  obtain ⟨index', threads', stop'⟩ := after.threads r
  exact ⟨index'.trans index, threads'.trans threads, stop'.trans stop⟩

theorem Host.WorkFrame.serving_iff {s t : Host ρ} (frame : s.WorkFrame t) {q : Nat} :
    t.Serving q ↔ s.Serving q := by
  refine exists_congr fun o => ?_
  obtain ⟨index, threads, stop⟩ := frame.threads o
  rw [index, threads, stop]

/-- A host whose ranks kept their threads and whose work did not grow. -/
theorem Host.WorkFrame.of_ranks {s t : Host ρ} (threads : ∀ r, (s.ranks r).SameThreads (t.ranks r))
    (jobs : ∀ r, (t.ranks r).jobs ≠ [] → (s.ranks r).jobs ≠ []) (queue : t.queue = s.queue) : s.WorkFrame t := by
  refine ⟨threads, fun q work => ?_⟩
  rcases work with ⟨r, index, some⟩ | entries
  · exact .inl ⟨r, (threads r).1 ▸ index, jobs r some⟩
  · exact .inr (queue ▸ entries)

theorem Host.setQueue_workFrame {h : Host ρ} {q : Nat} {entries : List (ρ × Job ρ)}
    (some : entries ≠ [] → h.Pending q) : h.WorkFrame (h.setQueue q entries) := by
  refine ⟨fun _ => ⟨rfl, rfl, rfl⟩, fun each work => ?_⟩
  rcases work with jobs | queued
  · exact .inl jobs
  · by_cases same : each = q
    · subst same
      exact some (by simpa [Host.setQueue] using queued)
    · exact .inr (by simpa [Host.setQueue, Function.update_of_ne same] using queued)

theorem Host.insertTail_workFrame {h : Host ρ} {r : ρ} (job : Job ρ) (some : (h.ranks r).jobs ≠ []) :
    h.WorkFrame (h.insertTail r job) :=
  Host.setQueue_workFrame fun _ => .inl ⟨r, rfl, some⟩

theorem Host.insertRankList_workFrame {h : Host ρ} {r : ρ} (job : Option (Job ρ))
    (some : job ≠ none → (h.ranks r).jobs ≠ []) : h.WorkFrame (h.insertRankList r job) := by
  cases job with
  | none => exact .refl h
  | some job => exact Host.insertTail_workFrame job (some (by simp))

theorem HostRank.bootRank_sameThreads (r : HostRank ρ) (current : Bool) (commands : LaunchCommands) :
    r.SameThreads (r.bootRank current commands).2 ∧ (r.bootRank current commands).2.jobs = r.jobs := by
  unfold HostRank.bootRank
  simp only []
  split_ifs <;> exact ⟨⟨rfl, rfl, rfl⟩, rfl⟩

theorem HostRank.bootDpu_sameThreads (r : HostRank ρ) (ci dpu : Nat) (commands : LaunchCommands) :
    r.SameThreads (r.bootDpu ci dpu commands).2 ∧ (r.bootDpu ci dpu commands).2.jobs = r.jobs := by
  unfold HostRank.bootDpu
  simp only []
  split_ifs <;> exact ⟨⟨rfl, rfl, rfl⟩, rfl⟩

theorem Host.WorkFrame.congr {s t u : Host ρ} (frame : s.WorkFrame t) (ranks : u.ranks = t.ranks)
    (queue : u.queue = t.queue) : s.WorkFrame u :=
  frame.trans (.of_ranks (fun _ => ranks ▸ ⟨rfl, rfl, rfl⟩) (fun _ => ranks ▸ id) queue)

theorem WorkerPc.finish_alive (status : DpuError) (r : ρ) : WorkerPc.finish status r ≠ .exited := by
  unfold WorkerPc.finish
  split_ifs <;> simp

theorem Host.insertRankList_workers (h : Host ρ) (r : ρ) (job : Option (Job ρ)) :
    (h.insertRankList r job).workers = h.workers := by
  cases job <;> rfl

section
variable [DecidableEq ρ]

theorem Host.setRank_workFrame {h : Host ρ} {r : ρ} {value : HostRank ρ}
    (threads : (h.ranks r).SameThreads value) (jobs : value.jobs ≠ [] → (h.ranks r).jobs ≠ []) :
    h.WorkFrame (h.setRank r value) := by
  refine .of_ranks (fun each => ?_) (fun each => ?_) rfl
  all_goals
    by_cases same : each = r
    · subst same
      simpa [Host.setRank]
    · simp [Host.setRank, Function.update_of_ne same, HostRank.SameThreads]

theorem Host.setJobs_workFrame {h : Host ρ} {r : ρ} {jobs : List (Job ρ)}
    (some : jobs ≠ [] → (h.ranks r).jobs ≠ []) : h.WorkFrame (h.setJobs r jobs) :=
  Host.setRank_workFrame ⟨rfl, rfl, rfl⟩ some

theorem Host.setCallbackTid_workFrame (h : Host ρ) (ranks : List ρ) (value : Bool) :
    h.WorkFrame (h.setCallbackTid ranks value) := by
  refine .of_ranks (fun each => ?_) (fun each => ?_) rfl
  all_goals by_cases member : each ∈ ranks <;> simp [Host.setCallbackTid, member, HostRank.SameThreads]

theorem Host.handleGlobalBlock_workFrame {rank : ρ} {ranks : List ρ} {h released : Host ρ}
    (handled : Host.handleGlobalBlock rank ranks h = some released) : h.WorkFrame released := by
  induction ranks generalizing h with
  | nil =>
    obtain rfl := Option.some.inj handled
    exact .refl h
  | cons other others ih =>
    rw [Host.handleGlobalBlock] at handled
    split_ifs at handled with same
    · exact ih handled
    · split at handled
      · cases handled
      · rename_i next later tail
        have popped : h.WorkFrame (h.setJobs other (next :: later)) :=
          Host.setJobs_workFrame fun _ empty => by simp [empty] at tail
        have inserted := Host.insertTail_workFrame (h := h.setJobs other (next :: later)) (r := other) next
          (by simp [Host.setJobs, Host.setRank])
        exact (popped.trans inserted).trans (ih handled)

theorem Host.bootRank_workFrame (h : Host ρ) (r : ρ) (current : Bool) (commands : LaunchCommands) :
    h.WorkFrame (h.setRank r ((h.ranks r).bootRank current commands).2) := by
  obtain ⟨threads, jobs⟩ := (h.ranks r).bootRank_sameThreads current commands
  exact Host.setRank_workFrame threads (jobs ▸ id)

theorem Host.bootDpu_workFrame (h : Host ρ) (r : ρ) (ci dpu : Nat) (commands : LaunchCommands) :
    h.WorkFrame (h.setRank r ((h.ranks r).bootDpu ci dpu commands).2) := by
  obtain ⟨threads, jobs⟩ := (h.ranks r).bootDpu_sameThreads ci dpu commands
  exact Host.setRank_workFrame threads (jobs ▸ id)

theorem Host.tail_workFrame (h : Host ρ) (r : ρ) : h.WorkFrame (h.setJobs r (h.ranks r).jobs.tail) :=
  Host.setJobs_workFrame fun some empty => some (by simp [empty])

/-- The abort of a rank tells its threads to stop and leaves all the work. -/
structure Host.Stops (s t : Host ρ) (r : ρ) : Prop where
  others : ∀ each, each ≠ r → (s.ranks each).SameThreads (t.ranks each)
  queueIdx : (t.ranks r).queueIdx = (s.ranks r).queueIdx
  shouldStop : (t.ranks r).shouldStop = true
  pending : ∀ q, t.Pending q ↔ s.Pending q

theorem Host.stops_of_update {s t : Host ρ} {r : ρ} {value : HostRank ρ}
    (ranks : t.ranks = Function.update s.ranks r value) (queue : t.queue = s.queue)
    (queueIdx : value.queueIdx = (s.ranks r).queueIdx) (shouldStop : value.shouldStop = true)
    (jobs : value.jobs = (s.ranks r).jobs) : s.Stops t r := by
  have here : t.ranks r = value := by simp [ranks]
  have other {each : ρ} (different : each ≠ r) : t.ranks each = s.ranks each := by
    simp [ranks, Function.update_of_ne different]
  refine ⟨fun each different => ?_, ?_, ?_, fun q => ?_⟩
  · rw [other different]
    exact ⟨rfl, rfl, rfl⟩
  · rw [here, queueIdx]
  · rw [here, shouldStop]
  · refine or_congr (exists_congr fun each => ?_) (by rw [queue])
    by_cases same : each = r
    · rw [same, here, queueIdx, jobs]
    · rw [other same]

/-- Once a rank is stopped, a queue is served by the other ranks of it. -/
theorem Host.Stops.serving_iff {s t : Host ρ} {r : ρ} (stops : s.Stops t r) {q : Nat} :
    t.Serving q ↔ ∃ o, o ≠ r ∧ (s.ranks o).queueIdx = q ∧ 0 < (s.ranks o).nrThreads ∧
      (s.ranks o).shouldStop = false := by
  refine exists_congr fun o => ?_
  by_cases same : o = r
  · subst same
    simp [stops.shouldStop]
  · obtain ⟨index, threads, stop⟩ := stops.others o same
    simp [same, index, threads, stop]

/-- What a step of the host does to the work and to those who do it. -/
inductive WorkStep (s : Host ρ) : HostAction ρ → Host ρ → Prop
  | frame {a t} : (∀ r, a ≠ .addJobs r) → a ≠ .call .abort → s.WorkFrame t → WorkStep s a t
  | addJobs {r t} : (∀ each, (s.ranks each).SameThreads (t.ranks each)) → (t.ranks r).jobs ≠ [] →
      (∀ q, t.Pending q → q = (s.ranks r).queueIdx ∨ s.Pending q) → WorkStep s (.addJobs r) t
  | spare {t} : (∀ i, s.call.poller = .abort i → i < s.call.preempt.nrRank → s.call.preempt.rankDone i ≠ 0) →
      s.WorkFrame t → WorkStep s (.call .abort) t
  | stops {i t} : s.call.poller = .abort i → i < s.call.preempt.nrRank → s.call.preempt.rankDone i = 0 →
      s.Stops t (s.setRanks i) → WorkStep s (.call .abort) t

theorem HostAbort.work {s aborted : Host ρ} (abort : HostAbort s aborted) (c : Call) :
    WorkStep s (.call .abort) (aborted.setCall c) := by
  have unchanged : s.WorkFrame (s.setCall c) := (Host.WorkFrame.refl s).congr rfl rfl
  cases abort with
  | @last i at_poller beyond =>
    refine .spare (fun j at_j inside => ?_) unchanged
    obtain rfl : i = j := PollerPc.abort.inj (at_poller.symm.trans at_j)
    exact absurd inside (not_lt.mpr beyond)
  | @spare i at_poller inside done =>
    refine .spare (fun j at_j _ => ?_) unchanged
    obtain rfl : i = j := PollerPc.abort.inj (at_poller.symm.trans at_j)
    exact done
  | restart call run fault at_poller inside running kind =>
    exact .stops at_poller inside running (Host.stops_of_update rfl rfl rfl rfl rfl)
  | advance at_poller inside running kind =>
    exact .stops at_poller inside running (Host.stops_of_update rfl rfl rfl rfl rfl)

theorem Host.addJobs_ranks (h : Host ρ) (r : ρ) (first : Job ρ) (rest : List (Job ρ)) :
    (h.addJobs r first rest).ranks =
      Function.update h.ranks r { h.ranks r with jobs := (h.ranks r).jobs ++ first :: rest } := by
  unfold Host.addJobs
  simp only []
  split_ifs <;> rfl

theorem Host.addJobs_work (h : Host ρ) (r : ρ) (first : Job ρ) (rest : List (Job ρ)) :
    WorkStep h (.addJobs r) (h.addJobs r first rest) := by
  have here : (h.addJobs r first rest).ranks r = { h.ranks r with jobs := (h.ranks r).jobs ++ first :: rest } := by
    simp [Host.addJobs_ranks]
  have other {each : ρ} (different : each ≠ r) : (h.addJobs r first rest).ranks each = h.ranks each := by
    simp [Host.addJobs_ranks, Function.update_of_ne different]
  refine .addJobs (fun each => ?_) ?_ fun q work => ?_
  · by_cases same : each = r
    · rw [same, here]
      exact ⟨rfl, rfl, rfl⟩
    · rw [other same]
      exact ⟨rfl, rfl, rfl⟩
  · simp [here]
  · by_cases index : q = (h.ranks r).queueIdx
    · exact .inl index
    · refine .inr ?_
      rcases work with ⟨each, atQueue, some⟩ | queued
      · have different : each ≠ r := by
          rintro rfl
          rw [here] at atQueue
          exact index atQueue.symm
        rw [other different] at atQueue some
        exact .inl ⟨each, atQueue, some⟩
      · refine .inr fun empty => queued ?_
        unfold Host.addJobs
        simp only []
        split_ifs
        · simpa [Host.setJobs, Host.setRank, Host.insertTail, Host.setQueue,
            Function.update_of_ne index] using empty
        · exact empty

/-- A step that neither adds jobs nor aborts a rank. -/
theorem HostStep.workFrame {s t : Host ρ} {a : HostAction ρ} (step : HostStep s a t)
    (noJobs : ∀ r, a ≠ .addJobs r) (noAbort : a ≠ .call .abort) : s.WorkFrame t := by
  cases step with
  | stop | syncRank | syncDpu | syncJob | copyToMram | copyFromMram | other | callbackAwaits | detachedReturns
    | initObject | call | check => exact (Host.WorkFrame.refl s).congr rfl rfl
  | take at_wait inside running queued =>
    exact (Host.setQueue_workFrame fun _ => .inr (by simp [queued])).congr rfl rfl
  | bootRank commands => exact (s.bootRank_workFrame _ _ commands).congr rfl rfl
  | bootDpu commands => exact (s.bootDpu_workFrame _ _ _ commands).congr rfl rfl
  | @callbackNonblocking o i r info =>
    have cleared : s.WorkFrame (s.setObject info.object 0) := (Host.WorkFrame.refl s).congr rfl rfl
    have popped := cleared.trans ((s.setObject info.object 0).tail_workFrame r)
    refine (popped.trans
      (Host.insertRankList_workFrame (s.ranks r).jobs.tail.head? fun some empty => some ?_)).congr
      rfl rfl
    have tail : (s.ranks r).jobs.tail = [] := by simpa [Host.setJobs, Host.setRank, Host.setObject] using empty
    rw [tail, List.head?_nil]
  | callbackBlocking =>
    exact (((Host.WorkFrame.refl s).congr rfl rfl).trans (Host.setCallbackTid_workFrame _ _ true)).congr rfl rfl
  | callbackReturns status _ released =>
    split_ifs at released
    · have handled := Host.handleGlobalBlock_workFrame released
      exact ((s.setCallbackTid_workFrame _ false).trans handled).congr rfl rfl
    · obtain rfl := Option.some.inj released
      exact (s.setCallbackTid_workFrame _ false).congr rfl rfl
  | advance => exact (s.tail_workFrame _).congr rfl rfl
  | failed => exact (Host.setJobs_workFrame fun some => absurd rfl some).congr rfl rfl
  | addJobs => exact absurd rfl (noJobs _)
  | inlineLaunchRank commands => exact s.bootRank_workFrame _ _ commands
  | inlineLaunchDpu commands => exact s.bootDpu_workFrame _ _ _ commands
  | poll | progress | reset => exact Host.setRank_workFrame ⟨rfl, rfl, rfl⟩ id
  | launchPreempt => exact .of_ranks (fun _ => ⟨rfl, rfl, rfl⟩) (fun _ => id) rfl
  | abort => exact absurd rfl noAbort

theorem HostStep.work {s t : Host ρ} {a : HostAction ρ} (step : HostStep s a t) : WorkStep s a t := by
  by_cases adds : ∃ r, a = .addJobs r
  · obtain ⟨r, rfl⟩ := adds
    cases step with
    | addJobs first rest => exact s.addJobs_work r first rest
  · by_cases aborts : a = .call .abort
    · subst aborts
      cases step with
      | call action isLocal => cases isLocal
      | abort abort taken => exact abort.work _
    · have noJobs := not_exists.mp adds
      exact .frame noJobs aborts (step.workFrame noJobs aborts)

theorem WorkStep.shouldStop {s t : Host ρ} {a : HostAction ρ} (step : WorkStep s a t) {o : ρ}
    (stopped : (s.ranks o).shouldStop = true) : (t.ranks o).shouldStop = true := by
  cases step with
  | frame noJobs noAbort kept => rw [(kept.threads o).2.2, stopped]
  | addJobs threads => rw [(threads o).2.2, stopped]
  | spare done kept => rw [(kept.threads o).2.2, stopped]
  | @stops i _ _ _ _ stops =>
    by_cases same : o = s.setRanks i
    · exact same ▸ stops.shouldStop
    · rw [(stops.others o same).2.2, stopped]

theorem Host.setWorker_exited {h : Host ρ} {owner o : ρ} {j i : Nat} {pc : WorkerPc ρ} (alive : pc ≠ .exited)
    (exited : (h.setWorker owner j pc).workers o i = .exited) : h.workers o i = .exited := by
  by_cases sameOwner : o = owner
  · subst sameOwner
    by_cases same : i = j
    · subst same
      simp [Host.setWorker, alive] at exited
    · simpa [Host.setWorker, Function.update_of_ne same] using exited
  · simpa [Host.setWorker, Function.update_of_ne sameOwner] using exited

/-- A thread exits only where it finds its rank told to stop. -/
theorem HostStep.exits {s t : Host ρ} {a : HostAction ρ} (step : HostStep s a t) {o : ρ} {i : Nat}
    (exited : t.workers o i = .exited) : s.workers o i = .exited ∨ (s.ranks o).shouldStop = true := by
  cases step with
  | @stop owner j at_wait inside stop =>
    by_cases same : o = owner
    · exact .inr (same ▸ stop)
    · exact .inl (by simpa [Host.setWorker, Function.update_of_ne same] using exited)
  | take | syncJob | callbackBlocking | detachedReturns | failed =>
    exact .inl (Host.setWorker_exited (by simp) exited)
  | bootRank | bootDpu => exact .inl (Host.setWorker_exited (by split_ifs <;> simp) exited)
  | syncRank | syncDpu | copyToMram | copyFromMram | other =>
    exact .inl (Host.setWorker_exited (WorkerPc.finish_alive _ _) exited)
  | callbackAwaits => exact .inl (Host.setWorker_exited (by split_ifs <;> simp) exited)
  | callbackNonblocking =>
    have before := Host.setWorker_exited (by simp) exited
    rw [Host.insertRankList_workers] at before
    exact .inl before
  | callbackReturns status _ released =>
    have before := Host.setWorker_exited (WorkerPc.finish_alive _ _) exited
    split_ifs at released
    · rw [Host.handleGlobalBlock_frame released] at before
      exact .inl before
    · obtain rfl := Option.some.inj released
      exact .inl before
  | advance => exact .inl (Host.setWorker_exited (by split <;> simp) exited)
  | addJobs first rest =>
    unfold Host.addJobs at exited
    simp only [] at exited
    split_ifs at exited <;> exact .inl exited
  | inlineLaunchRank | inlineLaunchDpu | initObject | poll | progress | reset | launchPreempt | call | check =>
    exact .inl exited
  | abort abort =>
    cases abort <;> exact .inl exited

theorem Host.ExitStopped.step {s t : Host ρ} {a : HostAction ρ} (exited : s.ExitStopped) (step : HostStep s a t) :
    t.ExitStopped := by
  intro o i gone
  rcases step.exits gone with earlier | stopped
  · exact step.work.shouldStop (exited o i earlier)
  · exact step.work.shouldStop stopped

/-- The transition neither adds jobs to a rank whose queue nobody serves any
more nor aborts the last rank that serves a queue with work. -/
def KeepsServing (τ : Transition (Host ρ) (HostAction ρ)) : Prop :=
  (∀ r, τ.action = .addJobs r → τ.before.Serving (τ.before.ranks r).queueIdx) ∧
    (τ.action = .call .abort → ∀ i, τ.before.call.poller = .abort i → i < τ.before.call.preempt.nrRank →
      τ.before.call.preempt.rankDone i = 0 →
        τ.before.Pending (τ.before.ranks (τ.before.setRanks i)).queueIdx →
          ∃ o, o ≠ τ.before.setRanks i ∧
            (τ.before.ranks o).queueIdx = (τ.before.ranks (τ.before.setRanks i)).queueIdx ∧
            0 < (τ.before.ranks o).nrThreads ∧ (τ.before.ranks o).shouldStop = false)

theorem WorkStep.served_iff {s t : Host ρ} {a : HostAction ρ} (step : WorkStep s a t)
    (served : ∀ q, s.Pending q → s.Serving q) :
    (∀ q, t.Pending q → t.Serving q) ↔ KeepsServing ⟨s, a, t⟩ := by
  cases step with
  | frame noJobs noAbort kept =>
    refine iff_of_true (fun q work => kept.serving_iff.mpr (served q (kept.pending q work))) ?_
    exact ⟨fun r adds => absurd adds (noJobs r), fun aborts => absurd aborts noAbort⟩
  | @addJobs r _ threads some grown =>
    have serving_iff {q : Nat} : t.Serving q ↔ s.Serving q := by
      refine exists_congr fun o => ?_
      obtain ⟨index, number, stop⟩ := threads o
      rw [index, number, stop]
    constructor
    · intro after
      refine ⟨?_, by simp⟩
      rintro _ ⟨rfl⟩
      exact serving_iff.mp (after _ (.inl ⟨r, (threads r).1, some⟩))
    · rintro ⟨serving, _⟩ q work
      rcases grown q work with rfl | earlier
      · exact serving_iff.mpr (serving r rfl)
      · exact serving_iff.mpr (served q earlier)
  | spare done kept =>
    refine iff_of_true (fun q work => kept.serving_iff.mpr (served q (kept.pending q work))) ⟨by simp, ?_⟩
    exact fun _ i at_poller inside running => absurd running (done i at_poller inside)
  | @stops i _ at_poller inside running stops =>
    constructor
    · intro after
      refine ⟨by simp, fun _ j at_j _ _ work => ?_⟩
      obtain rfl : i = j := PollerPc.abort.inj (at_poller.symm.trans at_j)
      exact stops.serving_iff.mp (after _ ((stops.pending _).mpr work))
    · rintro ⟨_, spared⟩ q work
      have earlier := (stops.pending q).mp work
      refine stops.serving_iff.mpr ?_
      by_cases index : q = (s.ranks (s.setRanks i)).queueIdx
      · subst index
        exact spared rfl i at_poller inside running earlier
      · obtain ⟨o, atQueue, threads, stop⟩ := served q earlier
        refine ⟨o, ?_, atQueue, threads, stop⟩
        rintro rfl
        exact index atQueue.symm

/-- The single rank once its abort has reset it and it has been polled again,
with the jobs it still has. -/
def singleStopped (jobs : List (Job Unit)) : HostRank Unit :=
  { (singleBooted.abortStrugglingDpu (fun _ => .ok) (fun _ => 0#8) fun _ => 0#8).poll .ok with jobs := jobs }

/-- The call once its poller has aborted the single rank. -/
def singleAborted : Call :=
  { singleAborting with
    poller := .finished, abort := Function.update (fun _ => 0) 0 1,
      aborted := Function.update (fun _ => false) 0 true }

/-- The worker of the single rank, still waiting for the DPUs that the abort
has reset, ends the launch and finds its rank told to stop. -/
theorem Host.single_exited : ∃ history,
    HostRun Host.singleStart history
      (Host.single 1 .restart (fun _ => 0) singleAborted (singleStopped []) [] .exited) := by
  obtain ⟨history, run⟩ := Host.single_aborting .restart
  have aborted :=
    run.next_eq (.abort (.restart (fun _ => .ok) (fun _ => 0#8) (fun _ => 0#8) rfl Nat.zero_lt_one rfl rfl)
    rfl) (congrArg (Host.setCall · _) (Host.single_setRank _))
  have finished := aborted.next (.abort (.last rfl (Nat.le_refl 1)) rfl)
  have polled := finished.next_eq (@HostStep.poll _ _ _ () .ok Nat.one_ne_zero) (Host.single_setRank _)
  have synced := polled.next_eq (@HostStep.syncRank _ _ _ () 0 () .ok rfl (.inl rfl)) (Host.single_setWorker _)
  have advanced := synced.next_eq (@HostStep.advance _ _ _ () 0 () rfl)
    ((congrArg (Host.setWorker · () 0 (.compute () (.sync 0))) (Host.single_setRank _)).trans
      (Host.single_setWorker _))
  have cleared : Function.update singleObjects 0 (singleObjects 0 - 1) = fun _ => 0 := by
    funext object
    by_cases zero : object = 0 <;> simp [singleObjects, zero]
  have notified := advanced.next_eq (@HostStep.syncJob _ _ _ () 0 () 0 rfl)
    ((congrArg (fun objects => Host.setWorker { Host.single _ _ _ _ _ _ _ with objects :=
      objects } () 0 (.advance ()))
      cleared).trans (Host.single_setWorker _))
  have emptied := notified.next_eq (@HostStep.advance _ _ _ () 0 () rfl)
    ((congrArg (Host.setWorker · () 0 .wait) (Host.single_setRank _)).trans (Host.single_setWorker _))
  exact ⟨_, emptied.next_eq (@HostStep.stop _ _ _ () 0 rfl Nat.zero_lt_one rfl) (Host.single_setWorker _)⟩

/-- The call on the single rank once it has returned. -/
theorem Host.single_returned : ∃ history,
    HostRun Host.singleStart history
      (Host.single 1 .restart (fun _ => 0) { singleAborted with caller := .returned } (singleStopped [])
        [] .exited) := by
  obtain ⟨history, run⟩ := Host.single_exited
  have done := run.next (.call .doJobs rfl rfl fun _ _ => rfl)
  have cleaned := done.next (.call .cleanPreempt rfl rfl (by simp))
  exact ⟨_, cleaned.next (.call .join rfl rfl (by simp))⟩

/-- From the allocation of the ranks on, work never lacks a thread exactly as
long as no jobs are added where nobody serves and no abort stops the last
rank that serves. -/
theorem HostRun.workServed_iff {start h : Host ρ} {history : List (Transition (Host ρ) (HostAction ρ))}
    (allocated : start.Allocated) (run : HostRun start history h) :
    (∀ τ ∈ history, τ.after.WorkServed) ↔ ∀ τ ∈ history, KeepsServing τ :=
  run.guarded_iff allocated.exitStopped (fun _ _ _ exited step => exited.step step) allocated.workServed
    fun _ _ _ exited served step => by
      rw [(exited.step step).forall_serving_iff]
      exact step.work.served_iff (exited.forall_serving_iff.mp served)

theorem workServed_iff_single : ∃ history h, HostRun Host.singleStart history h ∧ h.call = singleAborting ∧
    ((∀ τ ∈ history, τ.after.WorkServed) ↔ ∀ τ ∈ history, KeepsServing τ) := by
  obtain ⟨history, run⟩ := Host.single_aborting .restart
  exact ⟨history, _, run, rfl, HostRun.workServed_iff Host.singleStart_allocated run⟩

/-- The abort of the single rank stops the only thread of its queue: a job
added once the call has returned stays in the queue. -/
theorem single_restart_not_workServed :
    ¬ ∀ (start h : Host Unit) (history : List (Transition (Host Unit) (HostAction Unit))),
      start.Allocated → HostRun start history h → ∀ τ ∈ history, τ.after.WorkServed := by
  intro always
  obtain ⟨history, run⟩ := Host.single_returned
  have added := run.next (.addJobs (r := ()) .other [] (by simp))
  have served := always _ _ _ Host.singleStart_allocated added _ List.mem_cons_self
  obtain ⟨o, i, _, _, _, running⟩ := served 0 (.inl ⟨(), rfl, List.cons_ne_nil _ _⟩)
  exact Bool.noConfusion (show true = false from running)

end

end Upmem
