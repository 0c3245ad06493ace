import Upmem.JobCallbacks

set_option linter.unusedSectionVars false

namespace Upmem.Jobs
open Transitions
variable {ρ κ ω : Type} [DecidableEq ρ] [DecidableEq κ] [DecidableEq ω]

/-- Where the job at the head of a FIFO can be. -/
inductive Place (ω : Type)
  | queue
  | worker (w : ω)
  | parked

/-- The head of the FIFO of a rank is queued exactly once, a worker has it in
hand, or it is a blocking single-call callback that has arrived and waits for
the other ranks. -/
def State.HeadAt (s : State ρ κ ω) (r : ρ) (job : ThreadJob κ) : Place ω → Prop
  | .queue => (s.queue (s.api r).queueIdx).count (some (r, job)) = 1
  | .worker w => (s.workers w).hand? = some (r, job)
  | .parked => s.parked r = true ∧ ∃ m, job.type = .callbackOf m ∧ (s.masters m).isNonblocking = false ∧
      r ∈ (s.masters m).ranks ∧ r ∉ (s.masters m).sync.absent

/-- The queues hold jobs at the head of the FIFO of their rank only, and the
head of every FIFO is in exactly one place. -/
structure QueuesSound (s : State ρ κ ω) : Prop where
  real : ∀ q, none ∉ s.queue q
  head : ∀ q r job, some (r, job) ∈ s.queue q → (s.api r).queueIdx = q ∧ (s.api r).jobs.head? = some job
  place : ∀ r job, (s.api r).jobs.head? = some job → ∃! place, s.HeadAt r job place

/-- A rank that is woken at the end of a blocking single-call callback has a
job behind that of the callback. -/
def WakesNext (τ : Transition (State ρ κ ω) (Action ρ κ ω)) : Prop :=
  ∀ w r job status m other others, τ.action = .worker w →
    τ.before.workers w = .waking r job status m (other :: others) → (τ.before.api other).jobs.tail ≠ []

section
variable {s t : State ρ κ ω} {a : Action ρ κ ω}

theorem State.Inv.place (inv : s.Inv) {r : ρ} {job : ThreadJob κ} (head : (s.api r).jobs.head? = some job) :
    ∃! place, s.HeadAt r job place := by
  have queued (place : s.HeadAt r job .queue) : s.Queued r :=
    ⟨_, job, List.one_le_count_iff.mp (Nat.le_of_eq place.symm)⟩
  have held {w : ω} (place : s.HeadAt r job (.worker w)) : s.Held r := ⟨w, job, place⟩
  cases inv.placed r with
  | empty none => cases none.symm.trans head
  | @queued job' head' here only notHeld notParked =>
    obtain rfl := Option.some.inj (head'.symm.trans head)
    refine ⟨.queue, List.count_eq_one_of_mem (inv.once _) here, fun place at_place => ?_⟩
    cases place with
    | queue => rfl
    | worker w => exact absurd (held at_place) notHeld
    | parked => exact absurd (notParked.symm.trans at_place.1) Bool.false_ne_true
  | @held w job' head' here only notQueued notParked =>
    obtain rfl := Option.some.inj (head'.symm.trans head)
    refine ⟨.worker w, here, fun place at_place => ?_⟩
    cases place with
    | queue => exact absurd (queued at_place) notQueued
    | worker w' => rw [only w' job' at_place]
    | parked => exact absurd (notParked.symm.trans at_place.1) Bool.false_ne_true
  | @parked job' head' notQueued notHeld at_park =>
    obtain rfl := Option.some.inj (head'.symm.trans head)
    obtain ⟨m, ⟨own, first, type⟩, _, blocking, member, arrived, _⟩ := inv.gathered.parked r at_park
    obtain rfl := Option.some.inj (first.symm.trans head)
    refine ⟨.parked, ⟨at_park, m, type, blocking, member, arrived⟩, fun place at_place => ?_⟩
    cases place with
    | queue => exact absurd (queued at_place) notQueued
    | worker w => exact absurd (held at_place) notHeld
    | parked => rfl

theorem State.Inv.sound_iff_real (inv : s.Inv) : QueuesSound s ↔ ∀ q, none ∉ s.queue q :=
  ⟨QueuesSound.real, fun real =>
    ⟨real, fun _ r _ member => ⟨((inv.placed r).of_queue member).1, ((inv.placed r).of_queue member).2.1⟩,
      fun _ _ head => inv.place head⟩⟩

theorem State.none_mem_insertRank (alive : ∀ q, none ∉ s.queue q) (r : ρ) (next : Option (ThreadJob κ)) :
    (∀ q, none ∉ (s.insertRank r next).queue q) ↔ next ≠ none := by
  have tail : none ∈ (s.insertRank r next).queue (s.api r).queueIdx ↔ next = none := by
    rw [State.insertRank_queue, Function.update_self, List.mem_append, List.mem_singleton, eq_comm (a := none),
      Option.map_eq_none_iff]
    exact or_iff_right (alive _)
  refine ⟨fun all => tail.not.mp (all _), fun some q => ?_⟩
  by_cases own : q = (s.api r).queueIdx
  · subst own
    exact tail.not.mpr some
  · rw [State.insertRank_queue, Function.update_of_ne own]
    exact alive q

/-- A step queues a NULL job exactly if it wakes a rank without a next job. -/
theorem Move.real_iff (move : Move s a t) (inv : s.Inv) (alive : ∀ q, none ∉ s.queue q) :
    (∀ q, none ∉ t.queue q) ↔ WakesNext ⟨s, a, t⟩ := by
  cases a with
  | begin c call =>
    exact iff_of_true (move.begin_frame.1.queue ▸ alive) fun _ _ _ _ _ _ _ same => by cases same
  | compute w status =>
    refine iff_of_true ?_ fun _ _ _ _ _ _ _ same => by cases same
    cases move <;> exact alive
  | client c =>
    refine iff_of_true ?_ fun _ _ _ _ _ _ _ same => by cases same
    rcases move.client_frame with frame | ⟨call, r, jobs, rest, here, rfl⟩
    · exact frame.queue ▸ alive
    · have own := inv.clients c
      rw [here] at own
      rw [State.addJobs_eq]
      simp only [State.setClient]
      split_ifs
      · refine (State.none_mem_insertRank alive r jobs.head?).mpr ?_
        rw [ne_eq, List.head?_eq_none_iff]
        exact own.2 (r, jobs) List.mem_cons_self
      · exact alive
  | worker w =>
    have unlike (quiet : ∀ r job status m others, s.workers w ≠ .waking r job status m others) :
        WakesNext ⟨s, .worker w, t⟩ := by
      rintro _ r job status m other others ⟨⟩ here
      exact absurd here (quiet _ _ _ _ _)
    cases move with
    | @takes _ r job rest here queue =>
      refine iff_of_true (fun q member => ?_) (unlike (by simp [here]))
      by_cases own : q = s.workerQueue w
      · subst own
        refine alive (s.workerQueue w) ?_
        rw [queue]
        exact List.mem_cons_of_mem _ (by simpa [State.setWorker] using member)
      · exact alive q (by simpa [State.setWorker, own] using member)
    | @inserts _ r next m here =>
      refine iff_of_true ?_ (unlike (by simp [here]))
      unfold State.insertRankList
      split_ifs with some
      · exact (State.none_mem_insertRank alive r next).mpr (Option.isSome_iff_ne_none.mp some)
      · exact alive
    | @releases _ r job status m woken here =>
      refine iff_of_true alive ?_
      rintro _ _ _ _ _ _ _ ⟨⟩ waking
      rw [here] at waking
      cases waking
    | @wakesRank _ r job status m other others woken here =>
      have inserted :=
        State.none_mem_insertRank (s := s.setApi other ((s.api other).advanceToNextJob woken).2) alive other
        ((s.api other).advanceToNextJob woken).1
      refine inserted.trans ?_
      rw [RankApi.advanceToNextJob_fst, ne_eq, List.head?_eq_none_iff]
      constructor
      · rintro some _ _ _ _ _ _ _ ⟨⟩ waking
        obtain ⟨-, -, -, -, same⟩ := WorkerPc.waking.inj (here.symm.trans waking)
        obtain ⟨rfl, -⟩ := List.cons.inj same
        exact some
      · exact fun good => good w r job status m other others rfl here
    | @updatesStatus _ r job status woken here =>
      obtain ⟨syncs, dropped⟩ := s.updateStatus_eq r status woken
      rw [dropped]
      exact iff_of_true alive (unlike (by simp [here]))
    | detaches here | leaves here | leavesMaster here | advances here =>
      exact iff_of_true alive (unlike (by simp [here]))

end

/-- The threads of two ranks that share a queue, one client and one worker. -/
def State.pair : State Bool Unit Unit where
  api _ :=
    { nrJobs := 2, queueIdx := 0, availableJobs := [1, 0], availableJobsLength := 2, jobs := [], jobError := .ok
      waiters := [] }
  queue _ := []
  clients _ := .idle
  workers _ := .idle
  workerQueue _ := 0
  syncs _ := .init []
  masters _ :=
    { slotOwner := false, slot := 0, ranks := [], isNonblocking := false, sync := .init [], freed := false
      abandoned := false }
  nextMaster := 0
  parked _ := false

theorem State.pair_created : State.pair.Created :=
  ⟨fun _ => ⟨rfl, rfl, rfl, rfl, rfl⟩, fun _ => rfl, fun _ => rfl, fun _ => rfl, rfl, fun _ => rfl⟩

/-- A blocking single-call callback on both ranks. -/
def pairCallback : Call Bool where
  ranks := [false, true]
  kind := .callback ⟨false, false, true⟩
  nodup := twoRanks_nodup
  some := twoRanks_some
  accepted := by
    rintro _ ⟨⟩
    rfl

/-- A run that has not ended with a NULL job. -/
def LiveRun (start s : State ρ κ ω) : Prop :=
  start.Created ∧ (∃ history, JobRun start history s) ∧ ∀ q, none ∉ s.queue q

theorem LiveRun.next {start s t : State ρ κ ω} {a : Action ρ κ ω} (live : LiveRun start s) (move : Move s a t)
    (calm : ∀ w r job status m others, a = .worker w → s.workers w ≠ .waking r job status m others) :
    LiveRun start t := by
  obtain ⟨created, ⟨history, run⟩, alive⟩ := live
  have inv : s.Inv := run.reachable.invariant created.inv fun _ _ _ inv step => step.inv inv
  refine ⟨created, ⟨_, run.next ⟨alive, move⟩⟩, (move.real_iff inv alive).mpr ?_⟩
  intro w r job status m other others same here
  exact absurd here (calm _ _ _ _ _ _ same)

/-- The callback on two ranks comes to its end when nothing else is queued. -/
theorem pairCallback_run :
    ∃ s, LiveRun State.pair s ∧ s.workers () = .waking true ⟨1, .callbackOf 0⟩ .ok 0 [false] ∧
    (s.api false).jobs = [⟨1, .callbackOf 0⟩] := by
  have run : LiveRun State.pair State.pair := ⟨State.pair_created, ⟨_, .start⟩, fun q => by simp [State.pair]⟩
  have run := run.next (a := .begin () pairCallback) (.begin rfl) (by simp)
  have run := run.next (a := .client ()) (.gets rfl rfl rfl) (by simp)
  have run := run.next (a := .client ()) (.gets rfl rfl rfl) (by simp)
  have run := run.next (a := .client ()) (.choosesMaster rfl rfl rfl rfl (by decide) fun _ => rfl) (by simp)
  have run := run.next (a := .client ()) (.gets rfl rfl rfl) (by simp)
  have run := run.next (a := .client ()) (.setsMaster (show _ = _ from rfl) rfl rfl
    (show _ = [(false, [1]), (true, [1])] ++ [(false, [0])] from rfl)) (by simp)
  have run := run.next (a := .client ()) (.adds rfl) (by simp)
  have run := run.next (a := .client ()) (.adds rfl) (by simp)
  have run := run.next (a := .client ()) (.added rfl) (by simp)
  have run := run.next (a := .worker ()) (.takes rfl (show _ = _ from rfl)) (fun _ _ _ _ _ _ _ => nofun)
  have run := run.next (a := .compute () .ok) (.parks rfl rfl (show ¬ 2 = 1 by decide) rfl) (by simp)
  have run := run.next (a := .worker ()) (.takes rfl (show _ = _ from rfl)) (fun _ _ _ _ _ _ _ => nofun)
  have run := run.next (a := .compute () .ok) (.callsLast .ok rfl rfl rfl rfl) (by simp)
  exact ⟨_, run, rfl, rfl⟩

/-- The queues are sound all along a run exactly if every rank that a
callback wakes has another job. -/
theorem JobRun.queuesSound_iff {start s : State ρ κ ω} {history : List (Transition (State ρ κ ω) (Action ρ κ ω))}
    (created : start.Created) (run : JobRun start history s) :
    (∀ τ ∈ history, QueuesSound τ.after) ↔ ∀ τ ∈ history, WakesNext τ := by
  have initial : QueuesSound start := created.inv.sound_iff_real.mpr fun q => by simp [created.queue q]
  refine run.guarded_iff created.inv (fun _ _ _ inv step => step.inv inv) initial fun u b v inv _ step => ?_
  exact (step.inv inv).sound_iff_real.trans (step.move.real_iff inv step.alive)

/-- The callback on two ranks with nothing behind it. -/
theorem queuesSound_iff_pairCallback : ∃ history s, JobRun State.pair history s ∧
    s.workers () = .waking true ⟨1, .callbackOf 0⟩ .ok 0 [false] ∧
    ((∀ τ ∈ history, QueuesSound τ.after) ↔ ∀ τ ∈ history, WakesNext τ) := by
  obtain ⟨s, ⟨created, ⟨history, run⟩, _⟩, here, _⟩ := pairCallback_run
  exact ⟨history, s, run, here, JobRun.queuesSound_iff created run⟩

/-- It ends with the insertion of a NULL job. -/
theorem pairCallback_not_queuesSound :
    ¬ ∀ (start : State Bool Unit Unit) history s, start.Created → JobRun start history s →
      ∀ τ ∈ history, QueuesSound τ.after := by
  intro always
  obtain ⟨s, ⟨created, ⟨history, run⟩, alive⟩, here, jobs⟩ := pairCallback_run
  have inv : s.Inv := run.reachable.invariant created.inv fun _ _ _ inv step => step.inv inv
  have waiters : ∃ woken, Wakes (s.api false).waiters woken := by
    cases waiters : (s.api false).waiters with
    | nil => exact ⟨none, rfl⟩
    | cons thread rest => exact ⟨some thread, List.mem_cons_self⟩
  obtain ⟨woken, wakes⟩ := waiters
  have move := Move.wakesRank here wakes
  have sound := always _ _ _ created (run.next ⟨alive, move⟩) _ List.mem_cons_self
  refine (move.real_iff inv alive).mp sound.real () true _ _ _ _ _ rfl here ?_
  rw [jobs]
  rfl

end Upmem.Jobs
