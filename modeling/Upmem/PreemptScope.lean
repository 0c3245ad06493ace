import Upmem.Preempt

namespace Upmem.PreemptScope
open Transitions

section Scope
variable {κ ρ : Type}

/-- The two kinds of `struct dpu_set_t` that a preempted launch takes. -/
inductive LaunchSet (ρ : Type)
  | ranks (list : List ρ)
  | dpu (rank : ρ)

/-- `nr_ranks` of the launch. -/
def LaunchSet.nrRanks : LaunchSet ρ → Nat
  | .ranks list => list.length
  | .dpu _ => 1

/-- How many entries `dpu_set->list.ranks` has: in a `DPU_SET_DPU` the live
member of the union is `dpu`. -/
def LaunchSet.entries : LaunchSet ρ → Nat
  | .ranks list => list.length
  | .dpu _ => 0

/-- What `dpu_launch_preempt` is called with. The synchronisation object is an
uninitialised local variable until `dpu_thread_job_init_sync_job` sets it. -/
structure Launch (ρ : Type) where
  dpuSet : LaunchSet ρ
  synchronous : Bool
  callbackTidSet : Bool
  indeterminate : Nat

/-- `sync->nr_ranks` after `DPU_THREAD_JOB_GET_JOBS`. -/
def Launch.syncNrRanks (launch : Launch ρ) : Nat :=
  if launch.synchronous && (launch.dpuSet.nrRanks != 1 || !launch.callbackTidSet) then launch.dpuSet.nrRanks
  else launch.indeterminate

/-- A synchronous launch on ranks, outside a callback. -/
def Launch.onRanks (list : List ρ) : Launch ρ where
  dpuSet := .ranks list
  synchronous := true
  callbackTidSet := false
  indeterminate := 0

/-- Where the caller of `dpu_launch_preempt` is. -/
inductive CallerPc
  | getJobs | initPreempt | create | doJobs | cleanPreempt | join | free | returned
  deriving DecidableEq

/-- A call: its caller, its polling thread and its `sync.stop_polling`. -/
structure CallState where
  caller : CallerPc
  poller : PollerPc
  stopPolling : Bool

/-- All calls, and the one global `preempt`: its figures, the call whose
`dpu_set`, `abort` and arrays it points to, and the call that started
its `preempt_thread`. -/
structure Launches (κ : Type) where
  call : κ → CallState
  info : PreemptInfo
  launched : Option κ
  thread : Option κ

def Launches.start : Launches κ where
  call _ := ⟨.getJobs, .absent, false⟩
  info := Upmem.initPreempt 0
  launched := none
  thread := none

inductive Action
  | getJobs (succeeded : Bool)
  /-- `init_preempt`: up to the creation of the poller, and the creation. -/
  | initPreempt
  | create
  | doJobs
  /-- `clean_preempt`: the request to stop, the join, and the release of the arrays. -/
  | cleanPreempt
  | join
  | free
  /-- Steps of the poller. -/
  | test
  | check (rankDone rankFault : Bool) (elapsedTime : Nat)
  | decide (elapsed : Nat)
  | abort

variable [DecidableEq κ]

def Launches.set (s : Launches κ) (c : κ) (l : CallState) : Launches κ :=
  { s with call := Function.update s.call c l }

@[simp] theorem Launches.set_launched (s : Launches κ) (c : κ) (l : CallState) :
    (s.set c l).launched = s.launched := rfl
@[simp] theorem Launches.set_thread (s : Launches κ) (c : κ) (l : CallState) : (s.set c l).thread = s.thread := rfl
@[simp] theorem Launches.set_info (s : Launches κ) (c : κ) (l : CallState) : (s.set c l).info = s.info := rfl

/-- A step of a call or of its poller. -/
def Launches.step (launch : κ → Launch ρ) (s : Launches κ) (a : κ × Action) : Option (Launches κ) :=
  let c := a.1
  let l := s.call c
  match a.2 with
  | .getJobs succeeded =>
    if l.caller ≠ .getJobs then none
    else some (s.set c { l with caller := if succeeded then .initPreempt else .returned })
  | .initPreempt =>
    if l.caller = .initPreempt then
      some ({ s with info := Upmem.initPreempt (launch c).syncNrRanks, launched := some c }.set c
        { l with caller := .create })
    else none
  | .create =>
    if l.caller = .create then
      some ({ s with thread := some c }.set c { caller := .doJobs, poller := .test, stopPolling := false })
    else none
  | .doJobs => if l.caller = .doJobs then some (s.set c { l with caller := .cleanPreempt }) else none
  | .cleanPreempt =>
    if l.caller = .cleanPreempt then some (s.set c { l with caller := .join, stopPolling := true }) else none
  | .join =>
    -- joins the thread that the global names, whichever call has started it
    if l.caller = .join ∧ ∀ k, s.thread = some k → (s.call k).poller = .finished then
      some (s.set c { l with caller := .free })
    else none
  | .free => if l.caller = .free then some (s.set c { l with caller := .returned }) else none
  | .test =>
    if l.poller ≠ .test then none
    else if l.stopPolling then some (s.set c { l with poller := .finished })
    else some (s.set c { l with poller := .check 0 })
  | .check rankDone rankFault elapsedTime =>
    match l.poller with
    | .check eachRank =>
      if s.info.nrRank ≤ eachRank then some (s.set c { l with poller := .decide })
      else some ({ s with info := eachRankStatus eachRank rankDone rankFault elapsedTime s.info }.set c
        { l with poller := .check (eachRank + 1) })
    | _ => none
  | .decide elapsed =>
    if l.poller ≠ .decide then none
    else if determineStruggleDpu elapsed s.info then
      some (s.set c { l with poller := .abort 0, stopPolling := true })
    else some (s.set c { l with poller := .test })
  | .abort =>
    match l.poller with
    | .abort i =>
      if s.info.nrRank ≤ i then some (s.set c { l with poller := .finished })
      else some (s.set c { l with poller := .abort (i + 1) })
    | _ => none

/-- What a poller uses: the synchronisation object of a call, an entry of the
rank list of its set (to read the status of the rank, to reset it or to mark
it aborted), of its array `rank_done` or of its array `abort`. -/
inductive Access (κ : Type)
  | sync (call : κ)
  | rank (call : κ) (i : Nat)
  | rankDone (call : κ) (i : Nat)
  | abort (call : κ) (i : Nat)

/-- The accesses of a step of the poller of a call. -/
def Launches.accesses (s : Launches κ) (a : κ × Action) : List (Access κ) :=
  match a.2, (s.call a.1).poller, s.launched with
  | .test, .test, _ | .decide _, .decide, _ => [.sync a.1]
  | .check _ _ _, .check eachRank, some c =>
    if s.info.nrRank ≤ eachRank then [] else [.rank c eachRank, .rankDone c eachRank]
  | .abort, .abort i, some c =>
    if s.info.nrRank ≤ i then []
    else if s.info.rankDone i = 0 then [.rankDone c i, .abort c i, .rank c i]
    else [.rankDone c i, .abort c i]
  | _, _, _ => []

/-- The access is to something of a call, at an entry that exists. -/
def Access.Of (launch : κ → Launch ρ) (c : κ) : Access κ → Prop
  | .sync call => call = c
  | .rank call i => call = c ∧ i < (launch c).dpuSet.entries
  | .rankDone call i | .abort call i => call = c ∧ i < (launch c).dpuSet.nrRanks

/-- A step of a poller only uses what is of its own call, and the call has not returned. -/
def Scoped (launch : κ → Launch ρ) (τ : Transition (Launches κ) (κ × Action)) : Prop :=
  ∀ access ∈ τ.before.accesses τ.action,
    access.Of launch τ.action.1 ∧ (τ.before.call τ.action.1).caller ≠ .returned

/-- A call is between the beginning of its `init_preempt` and its return. -/
def CallState.Active (l : CallState) : Prop :=
  l.caller = .create ∨ l.caller = .doJobs ∨ l.caller = .cleanPreempt ∨ l.caller = .join ∨ l.caller = .free

def CallState.Polling (l : CallState) : Prop :=
  l.caller = .doJobs ∨ l.caller = .cleanPreempt ∨ l.caller = .join

/-- The poller of a call runs. -/
def CallState.Alive (l : CallState) : Prop :=
  l.poller ≠ .absent ∧ l.poller ≠ .finished

/-- When `init_preempt` begins, no other call is between the beginning of its
own and its return, and the number of ranks read is no more than the entries of the rank list. -/
def Isolated (launch : κ → Launch ρ) (τ : Transition (Launches κ) (κ × Action)) : Prop :=
  τ.action.2 = .initPreempt →
    (∀ other ≠ τ.action.1, ¬ (τ.before.call other).Active) ∧
      (launch τ.action.1).syncNrRanks ≤ (launch τ.action.1).dpuSet.entries

abbrev ScopeRun (launch : κ → Launch ρ) (history : List (Transition (Launches κ) (κ × Action))) (s : Launches κ) :
    Prop :=
  Run (fun s a t => s.step launch a = some t) .start history s

/-- At most one call is between its `init_preempt` and its return, and the
global is all its own. A poller only runs while its call waits for it. -/
structure Exclusive (launch : κ → Launch ρ) (s : Launches κ) : Prop where
  alone : ∀ c d, (s.call c).Active → (s.call d).Active → c = d
  launched : ∀ c, (s.call c).Active → s.launched = some c ∧ s.info.nrRank ≤ (launch c).dpuSet.entries
  thread : ∀ c, (s.call c).Active → (s.call c).caller ≠ .create → s.thread = some c
  alive : ∀ c, (s.call c).Alive → (s.call c).Polling

theorem CallState.Polling.active {l : CallState} (polling : l.Polling) : l.Active ∧ l.caller ≠ .create := by
  rcases polling with at_caller | at_caller | at_caller <;> simp [CallState.Active, at_caller]

theorem LaunchSet.entries_le (set : LaunchSet ρ) : set.entries ≤ set.nrRanks := by
  cases set <;> simp [LaunchSet.entries, LaunchSet.nrRanks]

theorem Launches.set_call (s : Launches κ) (c d : κ) (l : CallState) :
    (s.set c l).call d = if d = c then l else s.call d := by
  simp [Launches.set, Function.update_apply]

variable {launch : κ → Launch ρ} {s t : Launches κ} {c : κ}

omit [DecidableEq κ] in
theorem Exclusive.start : Exclusive launch (.start : Launches κ) where
  alone c d active := by simp [Launches.start, CallState.Active] at active
  launched c active := by simp [Launches.start, CallState.Active] at active
  thread c active := by simp [Launches.start, CallState.Active] at active
  alive c alive := by simp [Launches.start, CallState.Alive] at alive

/-- A step of one call that leaves the pointers of the global. -/
theorem Exclusive.set (exclusive : Exclusive launch s) {info : PreemptInfo} {l : CallState}
    (ranks : info.nrRank = s.info.nrRank) (active : l.Active → (s.call c).Active)
    (created : l.Active → l.caller ≠ .create → (s.call c).caller ≠ .create)
    (alive : l.Alive → l.Polling) : Exclusive launch ({ s with info := info }.set c l) := by
  have was (d : κ) (now : (({ s with info := info }.set c l).call d).Active) : (s.call d).Active := by
    rw [Launches.set_call] at now
    split_ifs at now with same
    · exact same ▸ active now
    · exact now
  refine ⟨fun d e now other => exclusive.alone d e (was d now) (was e other), fun d now => ?_, fun d now past => ?_,
    fun d now => ?_⟩
  · obtain ⟨mine, within⟩ := exclusive.launched d (was d now)
    exact ⟨mine, ranks ▸ within⟩
  · refine exclusive.thread d (was d now) ?_
    rw [Launches.set_call] at now past
    split_ifs at now past with same
    · exact same ▸ created now past
    · exact past
  · rw [Launches.set_call] at now ⊢
    split_ifs at now ⊢ with same
    · exact alive now
    · exact exclusive.alive d now

/-- The beginning of `init_preempt` takes the global over. -/
theorem Exclusive.initPreempt (exclusive : Exclusive launch s) (at_caller : (s.call c).caller = .initPreempt)
    (alone : ∀ other ≠ c, ¬ (s.call other).Active)
    (within : (launch c).syncNrRanks ≤ (launch c).dpuSet.entries) :
    Exclusive launch ({ s with info := Upmem.initPreempt (launch c).syncNrRanks, launched := some c }.set c
      { s.call c with caller := .create }) := by
  have only (d : κ) (now : (({ s with info := Upmem.initPreempt (launch c).syncNrRanks, launched := some c }.set c
      { s.call c with caller := .create }).call d).Active) : d = c := by
    by_contra other
    rw [Launches.set_call, if_neg other] at now
    exact alone d other now
  refine ⟨fun d e now other => (only d now).trans (only e other).symm, fun d now => ?_, fun d now past => ?_,
    fun d now => ?_⟩
  · obtain rfl := only d now
    exact ⟨rfl, within⟩
  · obtain rfl := only d now
    simp [Launches.set_call] at past
  · rw [Launches.set_call] at now ⊢
    split_ifs at now ⊢ with same
    · have polling := exclusive.alive c now
      simp [CallState.Polling, at_caller] at polling
    · exact exclusive.alive d now

/-- The creation of the poller makes it the one that the global names. -/
theorem Exclusive.create (exclusive : Exclusive launch s) (at_caller : (s.call c).caller = .create) :
    Exclusive launch ({ s with thread := some c }.set c ⟨.doJobs, .test, false⟩) := by
  have mine : (s.call c).Active := .inl at_caller
  have only (d : κ) (now : (({ s with thread := some c }.set c ⟨.doJobs, .test, false⟩).call d).Active) :
      d = c := by
    by_contra other
    rw [Launches.set_call, if_neg other] at now
    exact other (exclusive.alone d c now mine)
  refine ⟨fun d e now other => (only d now).trans (only e other).symm, fun d now => ?_, fun d now past => ?_,
    fun d now => ?_⟩
  · obtain rfl := only d now
    exact exclusive.launched d mine
  · exact congrArg some (only d now).symm
  · rw [Launches.set_call] at now ⊢
    split_ifs at now ⊢ with same
    · exact .inl rfl
    · exact exclusive.alive d now

theorem Exclusive.step (exclusive : Exclusive launch s) {a : κ × Action} (taken : s.step launch a = some t)
    (isolated : Isolated launch ⟨s, a, t⟩) : Exclusive launch t := by
  obtain ⟨c, action⟩ := a
  have running (alive : (s.call c).Alive) : (s.call c).Polling := exclusive.alive c alive
  cases action with
  | getJobs succeeded =>
    simp only [Launches.step] at taken
    split_ifs at taken with at_caller
    all_goals
      cases taken
      have idle (alive : (s.call c).Alive) : False := by
        simpa [CallState.Polling, not_not.mp at_caller] using running alive
      exact exclusive.set rfl (by simp [CallState.Active]) (by simp [CallState.Active]) fun alive =>
        (idle alive).elim
  | initPreempt =>
    simp only [Launches.step] at taken
    split_ifs at taken with at_caller
    cases taken
    obtain ⟨alone, within⟩ := isolated rfl
    exact exclusive.initPreempt at_caller alone within
  | create =>
    simp only [Launches.step] at taken
    split_ifs at taken with at_caller
    cases taken
    exact exclusive.create at_caller
  | doJobs | cleanPreempt =>
    simp only [Launches.step] at taken
    split_ifs at taken with at_caller
    cases taken
    exact exclusive.set rfl (by simp [CallState.Active, at_caller]) (by simp [at_caller])
      fun _ => by simp [CallState.Polling]
  | join =>
    simp only [Launches.step] at taken
    split_ifs at taken with joined
    cases taken
    obtain ⟨at_caller, ended⟩ := joined
    have named := exclusive.thread c (by simp [CallState.Active, at_caller]) (by simp [at_caller])
    exact exclusive.set rfl (by simp [CallState.Active, at_caller]) (by simp [at_caller])
      fun alive => absurd (ended c named) alive.2
  | free =>
    simp only [Launches.step] at taken
    split_ifs at taken with at_caller
    cases taken
    have idle (alive : (s.call c).Alive) : False := by simpa [CallState.Polling, at_caller] using running alive
    exact exclusive.set rfl (by simp [CallState.Active]) (by simp [at_caller]) fun alive => (idle alive).elim
  | test =>
    simp only [Launches.step] at taken
    split_ifs at taken with at_poller stopped
    all_goals
      cases taken
      have polling := running (by simp [CallState.Alive, not_not.mp at_poller])
      exact exclusive.set rfl (fun _ => polling.active.1) (fun _ => id) fun _ => polling
  | check rankDone rankFault elapsedTime =>
    simp only [Launches.step] at taken
    split at taken
    · rename_i eachRank at_poller
      have polling := running (by simp [CallState.Alive, at_poller])
      split_ifs at taken with last <;> cases taken
      · exact exclusive.set rfl (fun _ => polling.active.1) (fun _ => id) fun _ => polling
      · exact exclusive.set (by simp) (fun _ => polling.active.1) (fun _ => id) fun _ => polling
    · cases taken
  | decide elapsed =>
    simp only [Launches.step] at taken
    split_ifs at taken with at_poller struggle
    all_goals
      cases taken
      have polling := running (by simp [CallState.Alive, not_not.mp at_poller])
      exact exclusive.set rfl (fun _ => polling.active.1) (fun _ => id) fun _ => polling
  | abort =>
    simp only [Launches.step] at taken
    split at taken
    · rename_i i at_poller
      have polling := running (by simp [CallState.Alive, at_poller])
      split_ifs at taken with last <;> cases taken <;>
        exact exclusive.set rfl (fun _ => polling.active.1) (fun _ => id) fun _ => polling
    · cases taken

omit [DecidableEq κ] in
/-- In an exclusive state a poller only uses what is of its own call. -/
theorem Exclusive.accesses_scoped (exclusive : Exclusive launch s) {a : κ × Action} : Scoped launch ⟨s, a, t⟩ := by
  intro access used
  obtain ⟨c, action⟩ := a
  suffices both : (s.call c).Polling ∧ access.Of launch c by
    refine ⟨both.2, ?_⟩
    rcases both.1 with at_caller | at_caller | at_caller <;> simp [at_caller]
  have running (alive : (s.call c).Alive) : (s.call c).Polling := exclusive.alive c alive
  simp only [Launches.accesses] at used
  split at used
  · rename_i at_poller
    obtain rfl := List.mem_singleton.mp used
    exact ⟨running (by simp [CallState.Alive, at_poller]), rfl⟩
  · rename_i at_poller
    obtain rfl := List.mem_singleton.mp used
    exact ⟨running (by simp [CallState.Alive, at_poller]), rfl⟩
  · rename_i eachRank d at_poller named
    have polling := running (by simp [CallState.Alive, at_poller])
    obtain ⟨mine, within⟩ := exclusive.launched c polling.active.1
    obtain rfl : d = c := Option.some.inj (named.symm.trans mine)
    have fits := (launch d).dpuSet.entries_le
    split_ifs at used with last
    · simp at used
    · refine ⟨polling, ?_⟩
      simp only [List.mem_cons, List.not_mem_nil, or_false] at used
      rcases used with rfl | rfl
      · exact ⟨rfl, by omega⟩
      · exact ⟨rfl, by omega⟩
  · rename_i i d at_poller named
    have polling := running (by simp [CallState.Alive, at_poller])
    obtain ⟨mine, within⟩ := exclusive.launched c polling.active.1
    obtain rfl : d = c := Option.some.inj (named.symm.trans mine)
    have fits := (launch d).dpuSet.entries_le
    refine ⟨polling, ?_⟩
    split_ifs at used with last
    · simp at used
    · simp only [List.mem_cons, List.not_mem_nil, or_false] at used
      rcases used with rfl | rfl | rfl <;> exact ⟨rfl, by omega⟩
    · simp only [List.mem_cons, List.not_mem_nil, or_false] at used
      rcases used with rfl | rfl <;> exact ⟨rfl, by omega⟩
  · simp at used

omit [DecidableEq κ] in
/-- The poller of a call that has returned is over. -/
theorem Exclusive.stopped (exclusive : Exclusive launch s) (returned : (s.call c).caller = .returned) :
    ¬ (s.call c).Alive := by
  intro alive
  have polling := exclusive.alive c alive
  simp [CallState.Polling, returned] at polling

/-- In a run in which no `init_preempt` begins while another call has the
global, and each reads a number of ranks that its rank list has, a poller
only uses what is of its own call and is over when its call has returned. -/
theorem ScopeRun.scoped {history : List (Transition (Launches κ) (κ × Action))} (run : ScopeRun launch history s)
    (isolated : ∀ τ ∈ history, Isolated launch τ) :
    (∀ τ ∈ history, Scoped launch τ) ∧
      ∀ c, (s.call c).caller = .returned → (s.call c).poller = .absent ∨ (s.call c).poller = .finished := by
  obtain ⟨exclusive, along⟩ := run.guarded_transitions (Q := Exclusive launch) .start
    (fun s a t exclusive taken good => ⟨exclusive.step taken good, exclusive.accesses_scoped⟩) isolated
  refine ⟨along, fun c returned => ?_⟩
  have ended := exclusive.stopped returned
  by_contra neither
  exact ended (not_or.mp neither)

/-- A run in which every `init_preempt` is isolated reaches the state. -/
def Reaches (launch : κ → Launch ρ) (s : Launches κ) : Prop :=
  ∃ history, ScopeRun launch history s ∧ ∀ τ ∈ history, Isolated launch τ

theorem Reaches.start : Reaches launch .start :=
  ⟨[], .start, nofun⟩

theorem Reaches.next (reached : Reaches launch s) {a : κ × Action} (taken : s.step launch a = some t)
    (isolated : Isolated launch ⟨s, a, t⟩) : Reaches launch t := by
  obtain ⟨history, run, before⟩ := reached
  exact ⟨_, run.next taken, List.forall_mem_cons.mpr ⟨isolated, before⟩⟩

theorem Launches.step_undecided {elapsed : Nat} (at_poller : (s.call c).poller = .decide)
    (undecided : determineStruggleDpu elapsed s.info = false) :
    s.step launch (c, .decide elapsed) = some (s.set c { s.call c with poller := .test }) := by
  simp [Launches.step, at_poller, undecided]

theorem CallState.not_active_of {l : CallState} (caller : l.caller = .getJobs ∨ l.caller = .returned) :
    ¬ l.Active := by
  rcases caller with before | after
  · simp [CallState.Active, before]
  · simp [CallState.Active, after]

end Scope

/-- A launch on the rank 10, and after it one on the rank 20. -/
theorem scoped_inTurn : ∃ history s, ScopeRun (κ := Bool) (fun c => .onRanks [if c then 20 else 10]) history s ∧
    (∀ c, (s.call c).caller = .returned) ∧
      (∀ τ ∈ history, Scoped (fun c => Launch.onRanks [if c then 20 else 10]) τ) ∧
        ∀ c, (s.call c).caller = .returned → (s.call c).poller = .absent ∨ (s.call c).poller = .finished := by
  let launch (c : Bool) : Launch Nat := .onRanks [if c then 20 else 10]
  have entries (c : Bool) : (launch c).syncNrRanks ≤ (launch c).dpuSet.entries := by cases c <;> decide
  have undecided : determineStruggleDpu 0 (Upmem.initPreempt 1) = false := by
    have never : determineStruggleDpu 0 (Upmem.initPreempt 1) = true ↔ _ := determineStruggleDpu_iff le_rfl
    simpa using never
  have run : Reaches launch .start := .start
  have run := run.next (a := (false, .getJobs true)) rfl nofun
  have run := run.next (a := (false, .initPreempt)) rfl fun _ => ⟨fun other different => by
    cases other
    · exact absurd rfl different
    · exact CallState.not_active_of (.inl rfl), entries _⟩
  have run := run.next (a := (false, .create)) rfl nofun
  have run := run.next (a := (false, .test)) rfl nofun
  have run := run.next (a := (false, .check false false 0)) rfl nofun
  have run := run.next (a := (false, .doJobs)) rfl nofun
  have run := run.next (a := (false, .check false false 0)) rfl nofun
  have run := run.next (Launches.step_undecided (c := false) rfl undecided) nofun
  have run := run.next (a := (false, .cleanPreempt)) rfl nofun
  have run := run.next (a := (false, .test)) rfl nofun
  have run := run.next (a := (false, .join)) rfl nofun
  have run := run.next (a := (false, .free)) rfl nofun
  have run := run.next (a := (true, .getJobs true)) rfl nofun
  have run := run.next (a := (true, .initPreempt)) rfl fun _ => ⟨fun other different => by
    cases other
    · exact CallState.not_active_of (.inr rfl)
    · exact absurd rfl different, entries _⟩
  have run := run.next (a := (true, .create)) rfl nofun
  have run := run.next (a := (true, .test)) rfl nofun
  have run := run.next (a := (true, .check false false 0)) rfl nofun
  have run := run.next (a := (true, .doJobs)) rfl nofun
  have run := run.next (a := (true, .cleanPreempt)) rfl nofun
  have run := run.next (a := (true, .check false false 0)) rfl nofun
  have run := run.next (Launches.step_undecided (c := true) rfl undecided) nofun
  have run := run.next (a := (true, .test)) rfl nofun
  have run := run.next (a := (true, .join)) rfl nofun
  obtain ⟨history, run, isolated⟩ := run.next (a := (true, .free)) rfl nofun
  exact ⟨history, _, run, fun c => by cases c <;> rfl, ScopeRun.scoped run isolated⟩

/-- Of two launches on disjoint ranks, the poller of the first reads the
rank list of the second. -/
theorem overlapping_not_scoped :
    ¬ ∀ (launch : Bool → Launch Nat) (history : List (Transition (Launches Bool) (Bool × Action)))
    (s : Launches Bool),
      (∀ c d, c ≠ d → ∀ list others, (launch c).dpuSet = .ranks list → (launch d).dpuSet = .ranks others →
        list.Disjoint others) →
      ScopeRun launch history s → ∀ τ ∈ history, Scoped launch τ := by
  intro always
  let launch (c : Bool) : Launch Nat := .onRanks [if c then 20 else 10]
  have run : ScopeRun launch [] .start := .start
  have run := run.next (a := (false, .getJobs true)) rfl
  have run := run.next (a := (false, .initPreempt)) rfl
  have run := run.next (a := (false, .create)) rfl
  have run := run.next (a := (false, .test)) rfl
  have run := run.next (a := (true, .getJobs true)) rfl
  have run := run.next (a := (true, .initPreempt)) rfl
  have run := run.next (a := (false, .check false true 50)) rfl
  have disjoint (c d : Bool) (different : c ≠ d) (list others : List Nat)
      (mine : (launch c).dpuSet = .ranks list) (theirs : (launch d).dpuSet = .ranks others) :
      list.Disjoint others := by
    obtain rfl : [if c then 20 else 10] = list := LaunchSet.ranks.inj mine
    obtain rfl : [if d then 20 else 10] = others := LaunchSet.ranks.inj theirs
    cases c <;> cases d <;> simp_all
  have stays := always launch _ _ disjoint run _ List.mem_cons_self (.rank true 0) (.head _)
  exact absurd stays.1.1 (by decide)

end Upmem.PreemptScope
