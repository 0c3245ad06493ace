import Mathlib.Data.List.Basic
import Mathlib.Logic.Function.Basic
import Upmem.Lib.Transitions

namespace Upmem.PollingThread
open Transitions

/-- Where the polling thread is: at its loop test, before it takes its mutex,
in `pthread_cond_wait`, before `dpu_rank_handler_start_iteration`, going
through the ranks, before it tries to lock a rank that it has seen running, and
after its loop. -/
inductive Place (ρ : Type)
  | test
  | enters
  | asleep
  | starts
  | scans (todo : List (Option ρ))
  | tries (rank : ρ) (nbDpuRunning : Nat) (todo : List (Option ρ))
  | ended

/-- How far a worker is with a LAUNCH_RANK job on a rank: before and after
`polling_thread_set_dpu_running`, in the `pthread_cond_wait` of `dpu_sync_rank`
and woken up there. -/
inductive Launch
  | idle | booted | signalled | waits | woken
  deriving DecidableEq

/-- The worker has the lock of the rank. -/
def Launch.Locks : Launch → Prop
  | .booted | .signalled => True
  | .idle | .waits | .woken => False

/-- A polling thread, the list of the ranks, and for each rank the count and
the last status of its polls, its launch and whether a thread other than the
worker and the polling thread has its lock. -/
structure PollState (ρ : Type) where
  isDpuRunning : Bool
  isRunning : Bool
  oneRankRunning : Bool
  place : Place ρ
  ranks : List (Option ρ)
  nbDpuRunning : ρ → Nat
  pollOk : ρ → Bool
  launch : ρ → Launch
  locked : ρ → Bool

inductive Actor (ρ : Type)
  | pollingThread
  | worker (rank : ρ)
  | other

variable {ρ : Type} [DecidableEq ρ]

def PollState.setLaunch (s : PollState ρ) (rank : ρ) (launch : Launch) : PollState ρ :=
  { s with launch := Function.update s.launch rank launch }

/-- `pthread_cond_broadcast` on the `poll_cond` of the rank. -/
def Launch.broadcast : Launch → Launch
  | .waits => .woken
  | launch => launch

/-- The thread that `pthread_cond_signal` wakes up, or that wakes up by itself. -/
def Place.wake : Place ρ → Place ρ
  | .asleep => .starts
  | place => place

/-- The polling thread of the queue `idx` does not have to look at an entry of the list. -/
def Skipped (queueIdx : ρ → Nat) (idx : Nat) : Option ρ → Prop
  | none => True
  | some rank => queueIdx rank ≠ idx

/-- A rank that answers a poll. The broadcast is for a count below the one that was seen. -/
def PollState.polled (s : PollState ρ) (rank : ρ) (seen running : Nat) (todo : List (Option ρ)) : PollState ρ :=
  { s.setLaunch rank (if running < seen then (s.launch rank).broadcast else s.launch rank) with
    nbDpuRunning := Function.update s.nbDpuRunning rank running
    pollOk := Function.update s.pollOk rank true
    oneRankRunning := s.oneRankRunning || decide (running ≠ 0)
    place := .scans todo }

/-- A rank whose poll fails. -/
def PollState.pollFailed (s : PollState ρ) (rank : ρ) (todo : List (Option ρ)) : PollState ρ :=
  { s.setLaunch rank (s.launch rank).broadcast with
    pollOk := Function.update s.pollOk rank false
    place := .scans todo }

/-- The polling thread of a queue, the workers that launch ranks, and the other threads. -/
inductive Step (queueIdx : ρ → Nat) (idx : Nat) : PollState ρ → Actor ρ → PollState ρ → Prop
  | test {s} : s.place = .test →
      Step queueIdx idx s .pollingThread { s with place := if s.isRunning then .enters else .ended }
  | sleep {s} : s.place = .enters → s.isDpuRunning = false → s.oneRankRunning = false → s.isRunning = true →
      Step queueIdx idx s .pollingThread { s with place := .asleep }
  | enter {s} : s.place = .enters → ¬(s.isDpuRunning = false ∧ s.oneRankRunning = false ∧ s.isRunning = true) →
      Step queueIdx idx s .pollingThread
        { s with isDpuRunning := false, oneRankRunning := false, place := .starts }
  | spuriousWake {s} : s.place = .asleep → Step queueIdx idx s .pollingThread { s with place := .starts }
  | start {s} : s.place = .starts → Step queueIdx idx s .pollingThread { s with place := .scans s.ranks }
  | skip {s entry todo} : s.place = .scans (entry :: todo) → Skipped queueIdx idx entry →
      Step queueIdx idx s .pollingThread { s with place := .scans todo }
  -- The count is read without the lock.
  | notRunning {s rank todo} : s.place = .scans (some rank :: todo) → queueIdx rank = idx →
      s.nbDpuRunning rank = 0 →
      Step queueIdx idx s .pollingThread { s with place := .scans todo }
  | running {s rank todo} : s.place = .scans (some rank :: todo) → queueIdx rank = idx → s.nbDpuRunning rank ≠ 0 →
      Step queueIdx idx s .pollingThread { s with place := .tries rank (s.nbDpuRunning rank) todo }
  | busy {s rank seen todo} : s.place = .tries rank seen todo → (s.launch rank).Locks ∨ s.locked rank = true →
      Step queueIdx idx s .pollingThread { s with oneRankRunning := true, place := .scans todo }
  | poll {s rank seen todo} (running : Nat) : s.place = .tries rank seen todo → ¬(s.launch rank).Locks →
      s.locked rank = false → Step queueIdx idx s .pollingThread (s.polled rank seen running todo)
  | pollFails {s rank seen todo} : s.place = .tries rank seen todo → ¬(s.launch rank).Locks →
      s.locked rank = false → Step queueIdx idx s .pollingThread (s.pollFailed rank todo)
  | scanned {s} : s.place = .scans [] → Step queueIdx idx s .pollingThread { s with place := .test }
  -- `dpu_boot_rank`, which finds no DPU of the rank running and boots all that are enabled.
  | boot {s rank} (enabled : Nat) : s.launch rank = .idle → s.nbDpuRunning rank = 0 → some rank ∈ s.ranks →
      s.locked rank = false → Step queueIdx idx s (.worker rank)
        { s.setLaunch rank .booted with nbDpuRunning := Function.update s.nbDpuRunning rank enabled }
  | setDpuRunning {s rank} : s.launch rank = .booted → queueIdx rank = idx →
      Step queueIdx idx s (.worker rank)
        { s.setLaunch rank .signalled with isDpuRunning := true, place := s.place.wake }
  | setOtherRunning {s rank} : s.launch rank = .booted → queueIdx rank ≠ idx →
      Step queueIdx idx s (.worker rank) (s.setLaunch rank .signalled)
  | sync {s rank} : s.launch rank = .signalled →
      Step queueIdx idx s (.worker rank) (s.setLaunch rank (if s.nbDpuRunning rank ≠ 0 then .waits else .idle))
  | syncAgain {s rank} : s.launch rank = .woken → s.locked rank = false →
      Step queueIdx idx s (.worker rank)
        (s.setLaunch rank (if s.nbDpuRunning rank ≠ 0 ∧ s.pollOk rank = true then .waits else .idle))
  | lock {s rank} : s.locked rank = false → ¬(s.launch rank).Locks →
      Step queueIdx idx s .other { s with locked := Function.update s.locked rank true }
  | unlock {s rank} : s.locked rank = true →
      Step queueIdx idx s .other { s with locked := Function.update s.locked rank false }
  -- `polling_thread_destroy`
  | destroy {s} : Step queueIdx idx s .other { s with isRunning := false, place := s.place.wake }
  -- Ranks are added and freed between two iterations; a rank with a launch stays.
  | list {s} (ranks : List (Option ρ)) : (∀ todo, s.place ≠ .scans todo) →
      (∀ rank seen todo, s.place ≠ .tries rank seen todo) → (∀ rank, s.launch rank ≠ .idle → some rank ∈ ranks) →
      Step queueIdx idx s .other { s with ranks := ranks }

/-- The polling thread has been created and nothing has been launched. -/
structure PollState.Created (s : PollState ρ) : Prop where
  place : s.place = .test
  launch : ∀ rank, s.launch rank = .idle

/-- The polling thread still comes to a rank in its iteration. -/
def Place.Ahead (rank : ρ) : Place ρ → Prop
  | .starts => True
  | .scans todo => some rank ∈ todo
  | .tries other _ todo => rank = other ∨ some rank ∈ todo
  | _ => False

/-- The polling thread comes to a rank before it goes to sleep. -/
def PollState.Covered (s : PollState ρ) (rank : ρ) : Prop :=
  s.isDpuRunning = true ∨ s.oneRankRunning = true ∨ s.place.Ahead rank

/-- What holds of a rank of the queue during its launch. -/
def PollState.Watched (s : PollState ρ) (rank : ρ) : Launch → Prop
  | .idle | .booted => True
  | .signalled => s.nbDpuRunning rank ≠ 0 → s.Covered rank
  | .waits => s.nbDpuRunning rank ≠ 0 ∧ s.Covered rank
  | .woken => s.nbDpuRunning rank ≠ 0 → s.pollOk rank = true → s.Covered rank

structure PollState.Sound (queueIdx : ρ → Nat) (idx : Nat) (s : PollState ρ) : Prop where
  watched : ∀ rank, queueIdx rank = idx → s.Watched rank (s.launch rank)
  listed : ∀ rank, s.launch rank ≠ .idle → some rank ∈ s.ranks
  seen : ∀ rank seen todo, s.place = .tries rank seen todo → seen ≠ 0
  asleep : s.place = .asleep → s.isDpuRunning = false ∧ s.oneRankRunning = false

section Rules
variable {queueIdx : ρ → Nat} {idx : Nat} {s t : PollState ρ} {rank : ρ}

omit [DecidableEq ρ] in
theorem PollState.Created.sound (created : s.Created) : s.Sound queueIdx idx where
  watched rank _ := by
    rw [created.launch rank]
    trivial
  listed rank busy := absurd (created.launch rank) busy
  seen rank seen todo at_ := by
    rw [created.place] at at_
    cases at_
  asleep at_ := by
    rw [created.place] at at_
    cases at_

omit [DecidableEq ρ] in
/-- The launch of a rank stays watched while the count and the status of its polls stay. -/
theorem PollState.Watched.mono {launch : Launch} (watched : s.Watched rank launch)
    (count : t.nbDpuRunning rank = s.nbDpuRunning rank) (ok : t.pollOk rank = s.pollOk rank)
    (covered : s.Covered rank → (launch = .signalled ∨ launch = .waits ∨ launch = .woken) →
      s.nbDpuRunning rank ≠ 0 → t.Covered rank) : t.Watched rank launch := by
  cases launch with
  | idle | booted => trivial
  | signalled =>
    intro running
    rw [count] at running
    exact covered (watched running) (by simp) running
  | waits =>
    obtain ⟨running, before⟩ := watched
    exact ⟨count ▸ running, covered before (by simp) running⟩
  | woken =>
    intro running polled
    rw [count] at running
    rw [ok] at polled
    exact covered (watched running polled) (by simp) running

omit [DecidableEq ρ] in
/-- A step of the polling thread that leaves the ranks as they are. -/
theorem PollState.Sound.advance (sound : s.Sound queueIdx idx) (launch : t.launch = s.launch)
    (ranks : t.ranks = s.ranks)
    (count : t.nbDpuRunning = s.nbDpuRunning) (ok : t.pollOk = s.pollOk)
    (covered : ∀ rank, queueIdx rank = idx → some rank ∈ s.ranks → s.Covered rank → s.nbDpuRunning rank ≠ 0 →
      t.Covered rank)
    (seen : ∀ rank seen todo, t.place = .tries rank seen todo → seen ≠ 0)
    (asleep : t.place = .asleep → t.isDpuRunning = false ∧ t.oneRankRunning = false) : t.Sound queueIdx idx where
  watched rank here := by
    rw [launch]
    refine (sound.watched rank here).mono (congrFun count rank) (congrFun ok rank) fun before busy running =>
      covered rank here (sound.listed rank fun idle => ?_) before running
    rw [idle] at busy
    simp at busy
  listed rank busy := by
    rw [launch] at busy
    exact ranks ▸ sound.listed rank busy
  seen := seen
  asleep := asleep

omit [DecidableEq ρ] in
/-- A step that changes one rank only. -/
theorem PollState.Sound.of_rank (sound : s.Sound queueIdx idx) (rank : ρ)
    (others : ∀ other, other ≠ rank → t.launch other = s.launch other ∧
      t.nbDpuRunning other = s.nbDpuRunning other ∧
      t.pollOk other = s.pollOk other) (ranks : t.ranks = s.ranks)
    (covered : ∀ other, other ≠ rank → s.Covered other → t.Covered other)
    (here : queueIdx rank = idx → t.Watched rank (t.launch rank))
    (known : t.launch rank ≠ .idle → some rank ∈ s.ranks)
    (seen : ∀ rank seen todo, t.place = .tries rank seen todo → seen ≠ 0)
    (asleep : t.place = .asleep → t.isDpuRunning = false ∧ t.oneRankRunning = false) : t.Sound queueIdx idx where
  watched other queue := by
    by_cases same : other = rank
    · subst same
      exact here queue
    · obtain ⟨launch, count, ok⟩ := others other same
      rw [launch]
      exact (sound.watched other queue).mono count ok fun before _ _ => covered other same before
  listed other busy := by
    rw [ranks]
    by_cases same : other = rank
    · subst same
      exact known busy
    · rw [(others other same).1] at busy
      exact sound.listed other busy
  seen := seen
  asleep := asleep

theorem launch_setLaunch (rank : ρ) (launch : Launch) : (s.setLaunch rank launch).launch rank = launch :=
  Function.update_self ..

/-- The poll of a rank whose launch waits leaves it waiting for something that runs. -/
theorem PollState.Sound.polled (sound : s.Sound queueIdx idx) {seen : Nat} {todo : List (Option ρ)} (running : Nat)
    (here : s.place = .tries rank seen todo) (free : ¬(s.launch rank).Locks) :
    (s.polled rank seen running todo).Sound queueIdx idx := by
  have some : seen ≠ 0 := sound.seen rank seen todo here
  have runs (running' : running ≠ 0) (other : ρ) : (s.polled rank seen running todo).Covered other := by
    refine Or.inr (Or.inl ?_)
    change (s.oneRankRunning || decide (running ≠ 0)) = true
    rw [decide_eq_true running', Bool.or_true]
  have count : (s.polled rank seen running todo).nbDpuRunning rank = running := Function.update_self ..
  have launch : (s.polled rank seen running todo).launch rank =
      if running < seen then (s.launch rank).broadcast else s.launch rank := Function.update_self ..
  refine sound.of_rank rank (fun other differ => ?_) rfl (fun other differ before => ?_) (fun queue => ?_)
    (fun busy => ?_)
    (fun _ _ _ at_ => by cases at_) fun at_ => by cases at_
  · exact ⟨Function.update_of_ne differ .., Function.update_of_ne differ .., Function.update_of_ne differ ..⟩
  · rcases before with flag | one | ahead
    · exact Or.inl flag
    · refine Or.inr (Or.inl ?_)
      change (s.oneRankRunning || decide (running ≠ 0)) = true
      rw [one, Bool.true_or]
    · rw [here] at ahead
      exact Or.inr (Or.inr (ahead.resolve_left differ))
  · rw [launch]
    cases before : s.launch rank with
    | idle | booted => split_ifs <;> trivial
    | signalled =>
      rw [before] at free
      exact absurd trivial free
    | waits =>
      split_ifs with fewer
      · exact fun more _ => runs (count ▸ more) rank
      · have more : running ≠ 0 := by omega
        exact ⟨count.symm ▸ more, runs more rank⟩
    | woken =>
      have woken : (s.polled rank seen running todo).Watched rank .woken := fun more _ => runs (count ▸ more) rank
      split_ifs <;> exact woken
  · refine sound.listed rank fun idle => busy ?_
    rw [launch, idle]
    split_ifs <;> rfl

/-- A poll that fails wakes up the launch that waits. -/
theorem PollState.Sound.pollFailed (sound : s.Sound queueIdx idx) {seen : Nat} {todo : List (Option ρ)}
    (here : s.place = .tries rank seen todo) (free : ¬(s.launch rank).Locks) :
    (s.pollFailed rank todo).Sound queueIdx idx := by
  have ok : (s.pollFailed rank todo).pollOk rank = false := Function.update_self ..
  have launch : (s.pollFailed rank todo).launch rank = (s.launch rank).broadcast := Function.update_self ..
  refine sound.of_rank rank (fun other differ => ?_) rfl (fun other differ before => ?_) (fun queue => ?_)
    (fun busy => ?_)
    (fun _ _ _ at_ => by cases at_) fun at_ => by cases at_
  · exact ⟨Function.update_of_ne differ .., rfl, Function.update_of_ne differ ..⟩
  · rcases before with flag | one | ahead
    · exact Or.inl flag
    · exact Or.inr (Or.inl one)
    · rw [here] at ahead
      exact Or.inr (Or.inr (ahead.resolve_left differ))
  · have woken : (s.pollFailed rank todo).Watched rank .woken := by
      intro _ polled
      rw [ok] at polled
      cases polled
    rw [launch]
    cases before : s.launch rank with
    | idle | booted => trivial
    | signalled =>
      rw [before] at free
      exact absurd trivial free
    | waits | woken => exact woken
  · refine sound.listed rank fun idle => busy ?_
    rw [launch, idle]
    rfl

omit [DecidableEq ρ] in
theorem wake_eq_tries {place : Place ρ} {seen : Nat} {todo : List (Option ρ)} :
    place.wake = .tries rank seen todo ↔ place = .tries rank seen todo := by
  cases place <;> simp [Place.wake]

omit [DecidableEq ρ] in
theorem wake_ne_asleep {place : Place ρ} : place.wake ≠ .asleep := by
  cases place <;> simp [Place.wake]

omit [DecidableEq ρ] in
theorem ahead_wake {place : Place ρ} (ahead : place.Ahead rank) : place.wake.Ahead rank := by
  cases place with
  | asleep => trivial
  | test | enters | starts | scans | tries | ended => exact ahead

/-- A step of a worker that changes how far its launch is. -/
theorem PollState.Sound.launched {launch : Launch} (sound : s.Sound queueIdx idx)
    (here : queueIdx rank = idx → s.Watched rank launch) (listed : some rank ∈ s.ranks) :
    (s.setLaunch rank launch).Sound queueIdx idx := by
  refine sound.of_rank rank (fun other differ => ⟨Function.update_of_ne differ .., rfl, rfl⟩) rfl
    (fun _ _ before => before) (fun queue => ?_) (fun _ => listed) sound.seen sound.asleep
  rw [launch_setLaunch]
  cases launch with
  | idle | booted | signalled | waits | woken => exact here queue

theorem PollState.Sound.step {actor : Actor ρ} (sound : s.Sound queueIdx idx) (step : Step queueIdx idx s actor t) :
    t.Sound queueIdx idx := by
  cases step with
  | test here =>
    refine sound.advance rfl rfl rfl rfl (fun rank _ _ before _ => ?_) (fun _ _ _ at_ => ?_) fun at_ => ?_
    · rw [PollState.Covered, here] at before
      exact before.imp_right (Or.imp_right False.elim)
    · change (if s.isRunning then Place.enters else .ended) = _ at at_
      split_ifs at at_
    · change (if s.isRunning then Place.enters else .ended) = _ at at_
      split_ifs at at_
  | sleep here flag one running =>
    refine sound.advance rfl rfl rfl rfl (fun rank _ _ before _ => ?_)
      (fun _ _ _ at_ => by cases at_) fun _ => ⟨flag, one⟩
    rw [PollState.Covered, here, flag, one] at before
    simp [Place.Ahead] at before
  | enter | spuriousWake =>
    exact sound.advance rfl rfl rfl rfl (fun _ _ _ _ _ => Or.inr (Or.inr trivial)) (fun _ _ _ at_ => by cases at_)
      fun at_ => by cases at_
  | start here =>
    exact sound.advance rfl rfl rfl rfl (fun _ _ listed _ _ => Or.inr (Or.inr listed))
      (fun _ _ _ at_ => by cases at_)
      fun at_ => by cases at_
  | @skip entry todo here skipped =>
    refine sound.advance rfl rfl rfl rfl (fun rank queue _ before _ => ?_) (fun _ _ _ at_ => by cases at_)
      fun at_ => by cases at_
    rw [PollState.Covered, here] at before
    refine before.imp_right (Or.imp_right fun ahead => ?_)
    rcases List.mem_cons.mp ahead with rfl | later
    · exact absurd queue skipped
    · exact later
  | @notRunning rank todo here queue none =>
    refine sound.advance rfl rfl rfl rfl (fun other _ _ before running => ?_) (fun _ _ _ at_ => by cases at_)
      fun at_ => by cases at_
    rw [PollState.Covered, here] at before
    refine before.imp_right (Or.imp_right fun ahead => ?_)
    rcases List.mem_cons.mp ahead with same | later
    · cases same
      exact absurd none running
    · exact later
  | @running rank todo here queue some =>
    refine sound.advance rfl rfl rfl rfl (fun other _ _ before _ => ?_)
      (fun _ _ _ at_ => ?_) fun at_ => by cases at_
    · rw [PollState.Covered, here] at before
      exact before.imp_right (Or.imp_right fun ahead => (List.mem_cons.mp ahead).imp_left Option.some.inj)
    · cases at_
      exact some
  | busy here held =>
    exact sound.advance rfl rfl rfl rfl (fun _ _ _ _ _ => Or.inr (Or.inl rfl)) (fun _ _ _ at_ => by cases at_)
      fun at_ => by cases at_
  | poll running here free _ => exact sound.polled running here free
  | pollFails here free _ => exact sound.pollFailed here free
  | scanned here =>
    refine sound.advance rfl rfl rfl rfl (fun rank _ _ before _ => ?_)
      (fun _ _ _ at_ => by cases at_) fun at_ => by cases at_
    rw [PollState.Covered, here] at before
    exact before.imp_right (Or.imp_right fun ahead => by cases ahead)
  | @boot rank enabled idle none listed free =>
    refine sound.of_rank rank (fun other differ => ?_) rfl (fun _ _ before => before) (fun _ => ?_)
      (fun _ => listed)
      sound.seen sound.asleep
    · exact ⟨Function.update_of_ne differ .., Function.update_of_ne differ .., rfl⟩
    · rw [show ({ s.setLaunch rank .booted with nbDpuRunning := Function.update s.nbDpuRunning rank enabled } :
        PollState ρ).launch rank = .booted from launch_setLaunch ..]
      trivial
  | @setDpuRunning rank booted queue =>
    have launch : (s.setLaunch rank .signalled).launch rank = .signalled := launch_setLaunch ..
    refine sound.of_rank rank (fun other differ => ⟨Function.update_of_ne differ .., rfl, rfl⟩) rfl
      (fun _ _ _ => Or.inl rfl) (fun _ => ?_) (fun _ => sound.listed rank (by simp [booted])) (fun _ _ _ at_ => ?_)
      fun at_ => ?_
    · exact launch.symm ▸ fun _ => Or.inl rfl
    · exact sound.seen _ _ _ (wake_eq_tries.mp at_)
    · exact absurd at_ wake_ne_asleep
  | @setOtherRunning rank booted queue =>
    exact sound.of_rank rank (fun other differ => ⟨Function.update_of_ne differ .., rfl, rfl⟩) rfl
      (fun _ _ before => before) (fun here => absurd here queue) (fun _ => sound.listed rank (by simp [booted]))
      sound.seen sound.asleep
  | @sync rank signalled =>
    refine sound.launched (fun queue => ?_) (sound.listed rank (by simp [signalled]))
    have watched := sound.watched rank queue
    rw [signalled] at watched
    split_ifs with running
    · exact ⟨running, watched running⟩
    · trivial
  | @syncAgain rank woken free =>
    refine sound.launched (fun queue => ?_) (sound.listed rank (by simp [woken]))
    have watched := sound.watched rank queue
    rw [woken] at watched
    split_ifs with running
    · exact ⟨running.1, watched running.1 running.2⟩
    · trivial
  | lock | unlock => exact ⟨sound.watched, sound.listed, sound.seen, sound.asleep⟩
  | destroy =>
    refine sound.advance rfl rfl rfl rfl (fun rank _ _ before _ => ?_) (fun _ _ _ at_ => ?_) fun at_ => ?_
    · exact before.imp_right (Or.imp_right ahead_wake)
    · exact sound.seen _ _ _ (wake_eq_tries.mp at_)
    · exact absurd at_ wake_ne_asleep
  | list ranks notScans notTries stays => exact ⟨sound.watched, stays, sound.seen, sound.asleep⟩

/-- The polling thread never sleeps while a worker waits in `dpu_sync_rank`
for a rank of its queue, and a worker only waits there for DPUs that run: no
launch and no completion is missed. -/
theorem pollingThread_attends {start : PollState ρ} (created : start.Created)
    (reach : Reachable (Step queueIdx idx) start s) (queue : queueIdx rank = idx) (waits : s.launch rank = .waits) :
    s.place ≠ .asleep ∧ s.nbDpuRunning rank ≠ 0 := by
  have sound : s.Sound queueIdx idx := reach.invariant created.sound fun _ _ _ sound step => sound.step step
  have watched := sound.watched rank queue
  rw [waits] at watched
  obtain ⟨running, covered⟩ := watched
  refine ⟨fun asleep => ?_, running⟩
  obtain ⟨flag, one⟩ := sound.asleep asleep
  rw [PollState.Covered, flag, one, asleep] at covered
  simp [Place.Ahead] at covered

/-- One rank, of the queue 0, that nobody has launched. -/
def PollState.single : PollState Unit :=
  ⟨false, true, false, .test, [none, some ()], fun _ => 0, fun _ => true, fun _ => .idle, fun _ => false⟩

/-- The rank is launched while the polling thread sleeps. -/
theorem pollingThread_attends_single : ∃ s, Reachable (Step (fun _ => 0) 0) PollState.single s ∧
    s.launch () = .waits ∧ s.place ≠ .asleep ∧ s.nbDpuRunning () ≠ 0 := by
  have run : Run (Step (fun _ => 0) 0) PollState.single [] PollState.single := .start
  have run := run.next (a := .pollingThread) (.test rfl)
  have run := run.next (a := .pollingThread) (.sleep rfl rfl rfl rfl)
  have run := run.next (a := .worker ()) (.boot 8 rfl rfl (List.mem_cons_of_mem _ (List.mem_singleton.mpr rfl)) rfl)
  have run := run.next (a := .worker ()) (.setDpuRunning rfl rfl)
  have run := run.next (a := .worker ()) (.sync rfl)
  exact ⟨_, ⟨_, run⟩, rfl, pollingThread_attends ⟨rfl, fun _ => rfl⟩ ⟨_, run⟩ rfl rfl⟩

end Rules

end Upmem.PollingThread
