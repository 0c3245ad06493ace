import Upmem.JobMasters
import Upmem.JobPlaces

set_option linter.unusedSectionVars false

namespace Upmem.Jobs
open Transitions
variable {ρ κ ω : Type} [DecidableEq ρ] [DecidableEq κ] [DecidableEq ω]

/-- No callback is used and no job fails. -/
structure PlainJobs (τ : Transition (State ρ κ ω) (Action ρ κ ω)) : Prop where
  noCallback : ∀ c call flags, τ.action = .begin c call → call.kind ≠ .callback flags
  noFailure : ∀ w status, τ.action = .compute w status → status = .ok

/-- The jobs that a transition appends to the FIFO of a rank. -/
def appendedBy (r : ρ) (τ : Transition (State ρ κ ω) (Action ρ κ ω)) : List (ThreadJob κ) :=
  match τ.action with
  | .client c => ofRank r (τ.before.clients c).toAdd.head?.toList
  | _ => []

/-- The job of a rank that a transition executes. -/
def executedBy (r : ρ) (τ : Transition (State ρ κ ω) (Action ρ κ ω)) : List (ThreadJob κ) :=
  match τ.action with
  | .compute w _ =>
    match τ.before.workers w with
    | .run r' job => if r' = r then [job] else []
    | _ => []
  | _ => []

/-- The jobs that `dpu_thread_job_add_jobs` has appended to the FIFO of a rank, the first one first. -/
def appended (r : ρ) (history : List (Transition (State ρ κ ω) (Action ρ κ ω))) : List (ThreadJob κ) :=
  history.reverse.flatMap (appendedBy r)

/-- The jobs of a rank that were executed, the first one first. -/
def executed (r : ρ) (history : List (Transition (State ρ κ ω) (Action ρ κ ω))) : List (ThreadJob κ) :=
  history.reverse.flatMap (executedBy r)

open Classical in
/-- The jobs in the FIFO of a rank that are still to be executed. -/
noncomputable def State.unexecuted (s : State ρ κ ω) (r : ρ) : List (ThreadJob κ) :=
  if s.Computed r then (s.api r).jobs.tail else (s.api r).jobs

/-- The part of a history that ends with a client's adding the jobs of a call for a rank. -/
def AddedBy (history : List (Transition (State ρ κ ω) (Action ρ κ ω))) (c : κ) (call : Call ρ) (r : ρ)
    (added : List (Transition (State ρ κ ω) (Action ρ κ ω))) : Prop :=
  ∃ later σ earlier jobs rest, history = later ++ added ∧ added = σ :: earlier ∧ σ.action = .client c ∧
    σ.before.clients c = .adding call ((r, jobs) :: rest) ∧ (jobs.map ThreadJob.type).getLast? = some (.sync c) ∧
    ∀ τ ∈ later, ∀ call', τ.action ≠ .begin c call'

/-- Everything that was queued up to the SYNC job of a call, on every rank of the call, has been executed. -/
def CallExecuted (history : List (Transition (State ρ κ ω) (Action ρ κ ω))) (c : κ) (call : Call ρ) : Prop :=
  ∀ r ∈ call.usedRanks, ∃ added, AddedBy history c call r added ∧ appended r added <+: executed r history

/-- The jobs of each rank are executed one at a time and in the order in
which they were appended, none is lost, and a synchronous call returns only
when all that was queued before its SYNC job has been executed. -/
structure InOrder (history : List (Transition (State ρ κ ω) (Action ρ κ ω))) (s : State ρ κ ω) : Prop where
  single : ∀ r w w' job job', (s.workers w).hand? = some (r, job) → (s.workers w').hand? = some (r, job') → w = w'
  next : ∀ w r job, s.workers w = .run r job → ∃ rest, appended r history = executed r history ++ job :: rest
  order : ∀ r, executed r history <+: appended r history
  whole : ∀ r, (s.api r).jobs = [] → executed r history = appended r history
  progress : ∀ r, (s.api r).jobs ≠ [] → (∃ w, s.workerQueue w = (s.api r).queueIdx) →
    ∃ w a t, (a = .worker w ∨ a = .compute w .ok) ∧ Step s a t
  synchronised : ∀ c call, s.clients c = .waiting call → (s.syncs c).nrRanks = 0 → CallExecuted history c call
  returned : ∀ c call t, s.clients c = .waiting call → Step s (.client c) t → CallExecuted history c call

section
variable {r : ρ} {τ : Transition (State ρ κ ω) (Action ρ κ ω)}
  {history earlier later : List (Transition (State ρ κ ω) (Action ρ κ ω))}

theorem appended_cons : appended r (τ :: history) = appended r history ++ appendedBy r τ := by
  rw [appended, List.reverse_cons, List.flatMap_append, List.flatMap_singleton]
  rfl

theorem executed_cons : executed r (τ :: history) = executed r history ++ executedBy r τ := by
  rw [executed, List.reverse_cons, List.flatMap_append, List.flatMap_singleton]
  rfl

theorem appended_prefix : appended r earlier <+: appended r (later ++ earlier) := by
  rw [appended, appended, List.reverse_append, List.flatMap_append]
  exact List.prefix_append _ _

end

/-- What the jobs of a call ask for; those of callbacks are left out. -/
def Call.types (call : Call ρ) (c : κ) : List (JobType κ) :=
  match call.kind with
  | .async => [.work]
  | .synchronous => [.work, .sync c]
  | .sync => [.sync c]
  | .callback _ => []

def Call.Plain (call : Call ρ) : Prop := ∀ flags, call.kind ≠ .callback flags

/-- A call that is no callback takes the same number of slots of every rank. -/
structure Getting.Plain (g : Getting ρ) : Prop where
  call : g.call.Plain
  got : ∀ entry ∈ g.got, entry.2.length = g.call.nrJobsPerRank
  todo : ∀ r need rest, g.todo = (r, need) :: rest →
    g.hand.length + need = g.call.nrJobsPerRank ∧ ∀ entry ∈ rest, entry.2 = g.call.nrJobsPerRank

def ClientPc.Plain (c : κ) : ClientPc ρ κ → Prop
  | .getting g => g.Plain
  | .asleep g => g.Plain
  | .adding call jobs => call.Plain ∧ ∀ entry ∈ jobs, entry.2.map ThreadJob.type = call.types c
  | .waiting call => call.Plain ∧ call.isSynchronous = true
  | _ => True

/-- Without callbacks and failures a worker has nothing at hand, runs a job or is done with it. -/
inductive WorkerPc.Plain : WorkerPc ρ κ → Prop
  | idle : Plain .idle
  | run (r : ρ) (job : ThreadJob κ) : Plain (.run r job)
  | done (r : ρ) (job : ThreadJob κ) : Plain (.done r job .ok)

/-- A job that belongs to no callback. -/
def ThreadJob.Plain (job : ThreadJob κ) : Prop := job.type = .work ∨ ∃ c, job.type = .sync c

structure State.Plain (s : State ρ κ ω) : Prop where
  clients : ∀ c, (s.clients c).Plain c
  workers : ∀ w, (s.workers w).Plain
  jobs : ∀ r, ∀ job ∈ (s.api r).jobs, job.Plain
  parked : ∀ r, s.parked r = false

section
variable {s t : State ρ κ ω} {r : ρ} {w : ω} {c : κ} {a : Action ρ κ ω}

theorem Call.Plain.noMaster {call : Call ρ} (plain : call.Plain) : call.needsMaster = false := by
  unfold Call.needsMaster
  split
  next flags kind => exact absurd kind (plain flags)
  next => rfl

theorem Call.Plain.types {call : Call ρ} (plain : call.Plain) {slots : List Nat}
    (sized : slots.length = call.nrJobsPerRank) :
    (call.jobsOf c none slots).map ThreadJob.type = call.types c := by
  unfold Call.nrJobsPerRank at sized
  unfold Call.types
  split at sized
  next kind =>
    obtain ⟨slot, rfl⟩ := List.length_eq_one_iff.mp sized
    simp [Call.jobsOf, Call.firstType, kind]
  next kind =>
    obtain ⟨slot, slot', rfl⟩ := List.length_eq_two.mp sized
    simp [Call.jobsOf, Call.firstType, kind]
  next kind =>
    obtain ⟨slot, rfl⟩ := List.length_eq_one_iff.mp sized
    simp [Call.jobsOf, Call.firstType, kind]
  next flags kind => exact absurd kind (plain flags)

theorem Getting.Plain.types {g : Getting ρ} (plain : g.Plain) (c : κ) :
    ∀ entry ∈ g.got.map (fun (rank, slots) => (rank, g.call.jobsOf c none slots)),
      entry.2.map ThreadJob.type = g.call.types c := by
  intro entry member
  obtain ⟨⟨rank, slots⟩, inside, rfl⟩ := List.mem_map.mp member
  exact plain.call.types (plain.got _ inside)

theorem Getting.jobsOf_ranks (g : Getting ρ) (c : κ) :
    (g.got.map fun (rank, slots) => (rank, g.call.jobsOf c none slots)).map Prod.fst = g.got.map Prod.fst := by
  simp [Function.comp_def]

theorem Call.Plain.job {call : Call ρ} {jobs : List (ThreadJob κ)}
    (types : jobs.map ThreadJob.type = call.types c) :
    ∀ job ∈ jobs, job.Plain := by
  intro job member
  have member : job.type ∈ call.types c := types ▸ List.mem_map_of_mem member
  unfold Call.types at member
  split at member
  · exact .inl (List.mem_singleton.mp member)
  · rcases List.mem_cons.mp member with work | sync
    · exact .inl work
    · exact .inr ⟨c, List.mem_singleton.mp sync⟩
  · exact .inr ⟨c, List.mem_singleton.mp member⟩
  · cases member

theorem State.Created.plain (created : s.Created) : s.Plain where
  clients c := by
    rw [created.clients c]
    trivial
  workers w := by
    rw [created.workers w]
    exact .idle
  jobs r := by simp [(created.api r).jobs]
  parked := created.parked

theorem Getting.start_plain {call : Call ρ} (plain : call.Plain) : (Getting.start call).Plain where
  call := plain
  got entry member := by simp [Getting.start] at member
  todo r need rest todo := by
    have all : ∀ entry ∈ (Getting.start call).todo, entry.2 = call.nrJobsPerRank := by
      intro entry member
      obtain ⟨rank, _, rfl⟩ := List.mem_map.mp member
      rfl
    rw [todo] at all
    obtain ⟨first, others⟩ := List.forall_mem_cons.mp all
    exact ⟨(Nat.zero_add need).trans first, others⟩

/-- The FIFO and the place of the other ranks and threads stay as a client goes on. -/
theorem Move.plain_client (move : Move s (.client c) t) (inv : s.Inv) (plain : s.Plain) :
    (t.clients c).Plain c := by
  have own := plain.clients c
  cases move with
  | @gets _ g r need rest hand api here todo taken =>
    rw [here] at own
    obtain ⟨sized, others⟩ := own.todo r need rest todo
    simp only [State.setClient_clients, Function.update_self]
    refine ⟨own.call, fun entry member => ?_, fun r' need' rest' later => ?_⟩
    · rcases List.mem_append.mp member with old | new
      · exact own.got entry old
      · rw [List.mem_singleton.mp new]
        exact (RankApi.getJobs_got taken).trans sized
    · have later : rest = (r', need') :: rest' := later
      rw [later] at others
      obtain ⟨first, others⟩ := List.forall_mem_cons.mp others
      exact ⟨(Nat.zero_add need').trans first, others⟩
  | @sleeps _ g r need rest need' hand api here todo taken =>
    rw [here] at own
    obtain ⟨sized, others⟩ := own.todo r need rest todo
    simp only [State.setClient_clients, Function.update_self]
    refine ⟨own.call, own.got, fun r' need'' rest' later => ?_⟩
    obtain ⟨entry, rfl⟩ := List.cons.inj later
    obtain ⟨rfl, rfl⟩ := Prod.mk.inj entry
    exact ⟨(RankApi.getJobs_sleeps taken).2.1.trans sized, others⟩
  | wakes here =>
    rw [here] at own
    rw [State.setClient_clients, Function.update_self]
    exact own
  | choosesMaster here _ _ needs =>
    rw [here] at own
    exact absurd (needs.symm.trans own.call.noMaster) (by simp)
  | @setsMaster _ g owner slot got here todo chosen =>
    have ok := inv.clients c
    rw [here] at own ok
    have needs := ok.master (by rw [chosen]; exact Option.some_ne_none owner)
    exact absurd (needs.symm.trans own.call.noMaster) (by simp)
  | @setsJobs _ g here =>
    rw [here] at own
    rw [State.setClient_clients, Function.update_self]
    refine ⟨own.call, fun entry member => ?_⟩
    obtain ⟨⟨rank, slots⟩, inside, rfl⟩ := List.mem_map.mp member
    exact own.call.types (own.got _ inside)
  | adds here =>
    rw [here] at own
    rw [State.setClient_clients, Function.update_self]
    exact ⟨own.1, fun entry member => own.2 entry (List.mem_cons_of_mem _ member)⟩
  | @added _ call here =>
    rw [here] at own
    rw [State.setClient_clients, Function.update_self]
    split_ifs with synchronous
    · exact ⟨own.1, synchronous⟩
    · trivial
  | fails | ungets | unget | returns | resets | reset =>
    rw [State.setClient_clients, Function.update_self]
    trivial

theorem Move.plain (move : Move s a t) (inv : s.Inv) (plain : s.Plain) (quiet : PlainJobs ⟨s, a, t⟩) : t.Plain := by
  have worker {u : State ρ κ ω} {w : ω} {pc : WorkerPc ρ κ} (workers : u.workers = s.workers)
      (own : pc.Plain) (w' : ω) :
      ((u.setWorker w pc).workers w').Plain := by
    rw [State.setWorker_workers, workers]
    by_cases same : w' = w
    · subst same
      rwa [Function.update_self]
    · rw [Function.update_of_ne same]
      exact plain.workers w'
  cases a with
  | begin c call =>
    obtain ⟨frame, _, _⟩ := move.begin_frame
    obtain ⟨idle⟩ := move
    have own : (Getting.start call).Plain := Getting.start_plain fun flags => quiet.noCallback c call flags rfl
    refine ⟨fun c' => ?_, frame.workers ▸ plain.workers, fun r =>
      (frame.api r).jobs ▸ plain.jobs r, frame.parked ▸ plain.parked⟩
    by_cases same : c' = c
    · subst same
      rw [State.setClient_clients, Function.update_self]
      exact own
    · rw [State.setClient_clients, Function.update_of_ne same]
      split_ifs <;> exact plain.clients c'
  | client c =>
    have own := move.plain_client inv plain
    have clients (others : ∀ c' ≠ c, t.clients c' = s.clients c') (c' : κ) : (t.clients c').Plain c' := by
      by_cases same : c' = c
      · subst same
        exact own
      · rw [others c' same]
        exact plain.clients c'
    cases move.client_case (inv.clients c) with
    | quiet frame _ _ others =>
      exact ⟨clients others, frame.workers ▸ plain.workers,
        fun r => (frame.api r).jobs ▸ plain.jobs r, frame.parked ▸ plain.parked⟩
    | setsMaster frame _ _ others =>
      exact ⟨clients others, frame.workers ▸ plain.workers,
        fun r => (frame.api r).jobs ▸ plain.jobs r, frame.parked ▸ plain.parked⟩
    | @adds call r jobs rest here added =>
      subst added
      have before := plain.clients c
      rw [here] at before
      have same (c' : κ) (other : c' ≠ c) :
          ((s.addJobs r jobs).setClient c (.adding call rest)).clients c' = s.clients c' := by
        rw [State.setClient_clients, State.addJobs_clients, Function.update_of_ne other]
      refine ⟨clients same, ?_, fun r' job member => ?_, ?_⟩
      · rw [State.addJobs_eq]
        exact plain.workers
      · change job ∈ ((s.addJobs r jobs).api r').jobs at member
        rw [State.addJobs_jobs] at member
        rcases List.mem_append.mp member with old | new
        · exact plain.jobs r' job old
        · split_ifs at new
          · exact Call.Plain.job (before.2 (r, jobs) List.mem_cons_self) job new
          · cases new
      · rw [State.addJobs_eq]
        exact plain.parked
  | compute w status =>
    obtain rfl := quiet.noFailure w status rfl
    have unlike {r : ρ} {job : ThreadJob κ} (here : s.workers w = .run r job) : job.Plain :=
      plain.jobs r job (List.mem_of_head? ((inv.placed r).of_hand (w := w) (by rw [here]; rfl)).1)
    cases move with
    | works _ here | syncs here | calls _ here =>
      exact ⟨plain.clients, worker rfl (.done _ _), plain.jobs, plain.parked⟩
    | callsNonblocking _ here type | arrives here type | parks here type | callsLastNonblocking _ here type
      | callsLast _ here type =>
      rcases unlike here with work | ⟨c, sync⟩
      · rw [type] at work
        cases work
      · rw [type] at sync
        cases sync
  | worker w =>
    have own := plain.workers w
    cases move with
    | takes => exact ⟨plain.clients, worker rfl (.run _ _), plain.jobs, plain.parked⟩
    | @advances _ r job woken here =>
      refine ⟨plain.clients, worker rfl ?_, fun r' job' member => ?_, plain.parked⟩
      · cases ((s.api r).advanceToNextJob woken).1 with
        | none => exact .idle
        | some next => exact .run r next
      · by_cases same : r' = r
        · subst same
          simp only [State.setWorker, State.setApi_api, Function.update_self,
            RankApi.advanceToNextJob_jobs] at member
          exact plain.jobs r' job' (List.mem_of_mem_tail member)
        · simp only [State.setWorker, State.setApi_api, Function.update_of_ne same] at member
          exact plain.jobs r' job' member
    | updatesStatus here error =>
      rw [here] at own
      cases own
      exact absurd rfl error
    | detaches here | inserts here | leaves here | leavesMaster here | wakesRank here | releases here =>
      rw [here] at own
      cases own

theorem State.unexecuted_of_computed (computed : s.Computed r) : s.unexecuted r = (s.api r).jobs.tail :=
  if_pos computed

theorem State.unexecuted_of_not (notComputed : ¬ s.Computed r) : s.unexecuted r = (s.api r).jobs :=
  if_neg notComputed

theorem State.unexecuted_congr (jobs : (t.api r).jobs = (s.api r).jobs) (computed : t.Computed r ↔ s.Computed r) :
    t.unexecuted r = s.unexecuted r := by
  by_cases before : s.Computed r
  · rw [State.unexecuted_of_computed before, State.unexecuted_of_computed (computed.mpr before), jobs]
  · rw [State.unexecuted_of_not before, State.unexecuted_of_not (computed.not.mpr before), jobs]

/-- A job that a worker runs is the first one that is not executed yet. -/
theorem State.Inv.unexecuted_run {job : ThreadJob κ} (inv : s.Inv) (here : s.workers w = .run r job) :
    s.unexecuted r = job :: (s.api r).jobs.tail := by
  obtain ⟨head, only, _, notParked⟩ :=
    (inv.placed r).of_hand (show (s.workers w).hand? = some (r, job) by rw [here]; rfl)
  have notComputed : ¬ s.Computed r := by
    rintro (at_park | ⟨w', done⟩)
    · exact Bool.false_ne_true (notParked.symm.trans at_park)
    · obtain ⟨job', hand⟩ := WorkerPc.hand_of_computed done
      obtain rfl := only w' job' hand
      rw [here] at done
      cases done
  rw [State.unexecuted_of_not notComputed]
  exact (List.cons_head?_tail head).symm

/-- Jobs leave the front of the jobs to be executed when they are executed,
and come to the back of them when they are appended. -/
theorem Move.unexecuted (move : Move s a t) (inv : s.Inv) (plain : s.Plain) (quiet : PlainJobs ⟨s, a, t⟩) (r : ρ) :
    s.unexecuted r ++ appendedBy r ⟨s, a, t⟩ = executedBy r ⟨s, a, t⟩ ++ t.unexecuted r := by
  cases a with
  | begin c call =>
    obtain ⟨frame, _, _⟩ := move.begin_frame
    simp only [appendedBy, executedBy, List.append_nil, List.nil_append]
    exact (State.unexecuted_congr (frame.api r).jobs frame.computed).symm
  | client c =>
    simp only [appendedBy, executedBy, List.nil_append]
    rcases move.toAdd_before with before | ⟨call, r', jobs, rest, here, rfl⟩
    · rw [before, List.head?_nil, Option.toList_none]
      refine (List.append_nil _).trans ?_
      rcases move.client_frame with frame | ⟨call, r', jobs, rest, here, _⟩
      · exact (State.unexecuted_congr (frame.api r).jobs frame.computed).symm
      · rw [here] at before
        cases before
    · rw [here, ClientPc.toAdd, List.head?_cons, Option.toList_some, ofRank_singleton]
      have after : (((s.addJobs r' jobs).setClient c (.adding call rest)).api r).jobs =
          (s.api r).jobs ++ if r = r' then jobs else [] := s.addJobs_jobs r' jobs r
      have computed : ((s.addJobs r' jobs).setClient c (.adding call rest)).Computed r ↔ s.Computed r := by
        rw [State.addJobs_eq]
        rfl
      by_cases done : s.Computed r
      · rw [State.unexecuted_of_computed done, State.unexecuted_of_computed (computed.mpr done), after]
        cases fifo : (s.api r).jobs with
        | nil =>
          obtain ⟨_, notHeld, notParked⟩ := (inv.placed r).of_empty fifo
          rcases done with at_park | ⟨w, done⟩
          · exact absurd (notParked.symm.trans at_park) Bool.false_ne_true
          · obtain ⟨job, hand⟩ := WorkerPc.hand_of_computed done
            exact absurd ⟨w, job, hand⟩ notHeld
        | cons job others => simp only [List.cons_append, List.tail_cons, eq_comm (a := r)]
      · rw [State.unexecuted_of_not done, State.unexecuted_of_not (computed.not.mpr done), after]
        simp only [eq_comm (a := r)]
  | compute w status =>
    obtain rfl := quiet.noFailure w status rfl
    simp only [appendedBy, executedBy, List.append_nil]
    have executes {r' : ρ} {job : ThreadJob κ} {u : State ρ κ ω} (here : s.workers w = .run r' job)
        (api : u.api = s.api) (workers : u.workers = s.workers) (parked : u.parked = s.parked) :
        s.unexecuted r = (if r' = r then [job] else []) ++ (u.setWorker w (.done r' job .ok)).unexecuted r := by
      split_ifs with same
      · subst same
        rw [inv.unexecuted_run here, State.unexecuted_of_computed (.inr ⟨w, by simp [WorkerPc.computed?]⟩)]
        change _ = [job] ++ (u.api r').jobs.tail
        rw [api]
        rfl
      · refine (State.unexecuted_congr (congrArg (fun api => (api r).jobs) api) ⟨fun after => ?_,
          fun before => ?_⟩).symm
        · exact after.before workers (fun at_park => parked ▸ at_park) fun done =>
            absurd (Option.some.inj done) same
        · exact before.of_worker workers (fun at_park => parked ▸ at_park) (by simp [here, WorkerPc.computed?])
    have after := move.plain inv plain quiet
    have own := after.workers w
    cases move with
    | works _ here | syncs here | calls _ here | arrives here => exact here ▸ executes here rfl rfl rfl
    | callsNonblocking | callsLastNonblocking | callsLast =>
      rw [State.setWorker_workers, Function.update_self] at own
      cases own
    | @parks _ r' job m here =>
      have at_park := after.parked r'
      simp [State.setWorker] at at_park
  | worker w =>
    simp only [appendedBy, executedBy, List.append_nil, List.nil_append]
    have own := plain.workers w
    cases move with
    | @takes _ r' job rest here =>
      have computed : ((s.setQueue (s.workerQueue w) rest).setWorker w (.run r' job)).Computed r ↔ s.Computed r :=
        ⟨fun after => after.before rfl id (fun done => by
          cases done), fun before => before.of_worker rfl id (by simp [here, WorkerPc.computed?])⟩
      refine (State.unexecuted_congr ?_ computed).symm
      rfl
    | @advances _ r' job woken here =>
      have idle :
          (((s.api r').advanceToNextJob woken).1.elim WorkerPc.idle (WorkerPc.run r')).computed? = none := by
        cases ((s.api r').advanceToNextJob woken).1 <;> rfl
      by_cases same : r = r'
      · subst same
        obtain ⟨_, only, _, notParked⟩ :=
          (inv.placed r).of_hand (show (s.workers w).hand? = some (r, job) by rw [here]; rfl)
        rw [State.unexecuted_of_computed (.inr ⟨w, by rw [here]; rfl⟩), State.unexecuted_of_not]
        · simp [State.setWorker]
        · exact State.not_computed rfl notParked only (by rw [idle]; simp)
      · refine (State.unexecuted_congr (by simp [State.setWorker, same]) ⟨fun after => ?_, fun before => ?_⟩).symm
        · exact after.before rfl id (by rw [idle]; simp)
        · refine before.of_worker (u := s.setApi r' _) rfl id fun done => ?_
          rw [here] at done
          exact absurd (Option.some.inj done).symm same
    | updatesStatus here error =>
      rw [here] at own
      cases own
      exact absurd rfl error
    | detaches here | inserts here | leaves here | leavesMaster here | wakesRank here | releases here =>
      rw [here] at own
      cases own

/-- What was appended to a FIFO has been executed, up to the jobs that still are to be. -/
theorem JobRun.appended_eq {start : State ρ κ ω} {history : List (Transition (State ρ κ ω) (Action ρ κ ω))}
    (created : start.Created) (run : JobRun start history s) (plain : ∀ τ ∈ history, PlainJobs τ) :
    s.Inv ∧ s.Plain ∧ ∀ r, appended r history = executed r history ++ s.unexecuted r := by
  induction run with
  | start =>
    refine ⟨created.inv, created.plain, fun r => ?_⟩
    have none : start.unexecuted r = [] := by
      unfold State.unexecuted
      simp [(created.api r).jobs]
    rw [none]
    rfl
  | @next earlier u a v previous step ih =>
    obtain ⟨quiet, before⟩ := List.forall_mem_cons.mp plain
    obtain ⟨inv, plain, same⟩ := ih before
    refine ⟨step.inv inv, step.move.plain inv plain quiet, fun r => ?_⟩
    rw [appended_cons, executed_cons, same r, List.append_assoc, List.append_assoc,
      step.move.unexecuted inv plain quiet r]

/-- The SYNC jobs of a client for a rank that are still to be added or to be executed. -/
noncomputable def State.pending (s : State ρ κ ω) (c : κ) (r : ρ) : Nat :=
  ((s.unexecuted r).map ThreadJob.type).count (.sync c) +
    ((ofRank r (s.clients c).toAdd).map ThreadJob.type).count (.sync c)

/-- The object of a synchronous call counts the ranks whose SYNC job is
pending, and outside of such a call no SYNC job is. -/
def ClientPc.Counts (pending : ρ → Nat) (sync : SyncObject ρ) : ClientPc ρ κ → Prop
  | .getting g => (∀ r, pending r = 0) ∧
      (g.call.isSynchronous = true → sync.nrRanks = sync.absent.length ∧ sync.absent = g.call.usedRanks)
  | .asleep g => (∀ r, pending r = 0) ∧
      (g.call.isSynchronous = true → sync.nrRanks = sync.absent.length ∧ sync.absent = g.call.usedRanks)
  | .adding call _ => (call.isSynchronous = false → ∀ r, pending r = 0) ∧
      (call.isSynchronous = true → sync.nrRanks = sync.absent.length ∧ ∀ r, pending r ≤ sync.absent.count r)
  | .waiting _ => sync.nrRanks = sync.absent.length ∧ ∀ r, pending r ≤ sync.absent.count r
  | _ => ∀ r, pending r = 0

def State.Counted (s : State ρ κ ω) : Prop := ∀ c, (s.clients c).Counts (s.pending c) (s.syncs c)

theorem Call.Plain.count_types {call : Call ρ} (plain : call.Plain) (c c' : κ) :
    (call.types c).count (.sync c') = if call.isSynchronous = true ∧ c = c' then 1 else 0 := by
  unfold Call.types Call.isSynchronous
  cases kind : call.kind with
  | async => rfl
  | synchronous | sync => by_cases same : c = c' <;> simp [same]
  | callback flags => exact absurd kind (plain flags)

/-- The jobs of a call hold one SYNC job for each rank, if any. -/
theorem Call.Plain.count_ofRank {call : Call ρ} (plain : call.Plain) {entries : List (ρ × List (ThreadJob κ))}
    (types : ∀ entry ∈ entries, entry.2.map ThreadJob.type = call.types c) (c' : κ) :
    ((ofRank r entries).map ThreadJob.type).count (.sync c') =
      if call.isSynchronous = true ∧ c = c' then (entries.map Prod.fst).count r else 0 := by
  induction entries with
  | nil => split_ifs <;> rfl
  | cons entry rest ih =>
    obtain ⟨first, others⟩ := List.forall_mem_cons.mp types
    obtain ⟨rank, jobs⟩ := entry
    rw [ofRank_cons, List.map_append, List.count_append, ih others, List.map_cons, List.count_cons]
    by_cases same : rank = r
    · rw [if_pos same, first, plain.count_types]
      split_ifs <;> simp_all [Nat.add_comm]
    · rw [if_neg same]
      split_ifs <;> simp_all

theorem Move.client_syncs (move : Move s (.client c) t) : t.syncs = s.syncs := by
  cases move with
  | adds =>
    rw [State.addJobs_eq]
    rfl
  | gets | sleeps | wakes | fails | ungets | unget | choosesMaster | setsJobs | setsMaster | added
      | returns | resets
    | reset => rfl

/-- A client that adds nothing has the SYNC jobs that it had, and those that it is about to add. -/
theorem Move.pending_own (move : Move s (.client c) t) (inv : s.Inv) (plain : s.Plain)
    (quiet : PlainJobs ⟨s, .client c, t⟩)
    (before : (s.clients c).toAdd = []) (r : ρ) :
    t.pending c r = s.pending c r + ((ofRank r (t.clients c).toAdd).map ThreadJob.type).count (.sync c) := by
  have same := move.unexecuted inv plain quiet r
  have same : s.unexecuted r = t.unexecuted r := by simpa [appendedBy, executedBy, before, ofRank] using same
  rw [State.pending, State.pending, before, same]
  rfl

/-- A client adds its SYNC job to a FIFO. -/
theorem Move.pending_adds {call : Call ρ} {r' : ρ} {jobs : List (ThreadJob κ)}
    {rest : List (ρ × List (ThreadJob κ))}
    (move : Move s (.client c) t) (inv : s.Inv) (plain : s.Plain) (quiet : PlainJobs ⟨s, .client c, t⟩)
    (here : s.clients c = .adding call ((r', jobs) :: rest)) (after : t.clients c = .adding call rest) (r : ρ) :
    t.pending c r = s.pending c r := by
  have same := move.unexecuted inv plain quiet r
  simp only [appendedBy, executedBy, List.nil_append, here, ClientPc.toAdd, List.head?_cons, Option.toList_some,
    ofRank_singleton] at same
  rw [State.pending, State.pending, ← same, here, after, ClientPc.toAdd, ClientPc.toAdd, ofRank_cons,
    List.map_append,
    List.map_append, List.count_append, List.count_append]
  omega

theorem Move.pending_other {c' : κ} (move : Move s (.client c') t) (inv : s.Inv) (plain : s.Plain)
    (quiet : PlainJobs ⟨s, .client c', t⟩) (other : c ≠ c') (same : t.clients c = s.clients c) (r : ρ) :
    t.pending c r = s.pending c r := by
  have none : ((appendedBy r ⟨s, .client c', t⟩).map ThreadJob.type).count (.sync c) = 0 := by
    have own := plain.clients c'
    cases here : s.clients c' with
    | adding call jobs =>
      rw [here] at own
      have types : ∀ entry ∈ jobs.head?.toList, entry.2.map ThreadJob.type = call.types c' := fun entry member =>
        own.2 entry (List.mem_of_head? (Option.mem_toList.mp member))
      simp only [appendedBy, here, ClientPc.toAdd]
      rw [own.1.count_ofRank types, if_neg fun both => other both.2.symm]
    | idle | getting | asleep | ungetting | waiting | resetting => simp [appendedBy, here, ClientPc.toAdd, ofRank]
  have moved := congrArg (fun jobs => (jobs.map ThreadJob.type).count (.sync c)) (move.unexecuted inv plain quiet r)
  have nothing : executedBy r ⟨s, .client c', t⟩ = [] := rfl
  simp only [List.map_append, List.count_append, none, nothing, List.nil_append] at moved
  rw [State.pending, State.pending, same, ← moved]
  rfl

theorem Move.counted_client (move : Move s (.client c) t) (inv : s.Inv) (plain : s.Plain)
    (quiet : PlainJobs ⟨s, .client c, t⟩) (counted : s.Counted) :
    (t.clients c).Counts (t.pending c) (t.syncs c) := by
  have own := counted c
  have ok := inv.clients c
  have orderly := plain.clients c
  rw [move.client_syncs]
  have before : (s.clients c).toAdd = [] → (t.clients c).toAdd = [] → t.pending c = s.pending c :=
    fun before after =>
    funext fun r => by rw [move.pending_own inv plain quiet before, after]; rfl
  have adds := @Move.pending_own _ _ _ _ _ _ s t c move inv plain quiet
  have added := fun call r' jobs rest => @Move.pending_adds _ _ _ _ _ _ s t c call r' jobs rest move inv plain quiet
  cases move with
  | gets here | sleeps here | wakes here | fails here | choosesMaster here =>
    rw [here] at own before
    simp only [State.setClient_clients, Function.update_self] at before ⊢
    rw [before rfl rfl]
    first | exact own | exact own.1
  | ungets here | unget here | resets here | reset here =>
    rw [here] at own before
    simp only [State.setClient_clients, Function.update_self] at before ⊢
    rw [before rfl rfl]
    exact own
  | @setsMaster _ g owner slot got here todo chosen =>
    rw [here] at orderly ok
    have needs := ok.master (by rw [chosen]; exact Option.some_ne_none owner)
    exact absurd (needs.symm.trans orderly.call.noMaster) (by simp)
  | @setsJobs _ g here todo needs =>
    rw [here] at own orderly ok
    have types := Getting.Plain.types orderly c
    have ranks : g.got.map Prod.fst = g.call.usedRanks := by
      have noMaster : g.master = none := by
        by_contra some
        exact absurd ((ok.master some).symm.trans orderly.call.noMaster) (by simp)
      simpa [todo, noMaster] using ok.ranks
    have now (r : ρ) := adds (by rw [here]; rfl) r
    simp only [State.setClient_clients, Function.update_self, ClientPc.toAdd, orderly.call.count_ofRank types,
      g.jobsOf_ranks c, ranks, own.1, Nat.zero_add, and_true] at now ⊢
    refine ⟨fun asynchronous r => ?_, fun synchronous => ?_⟩
    · rw [now, asynchronous]
      exact if_neg Bool.false_ne_true
    · obtain ⟨length, all⟩ := own.2 synchronous
      refine ⟨length, fun r => ?_⟩
      rw [now, if_pos synchronous, all]
  | @adds _ call r jobs rest here =>
    have after : ((s.addJobs r jobs).setClient c (.adding call rest)).clients c = .adding call rest :=
      Function.update_self ..
    have now (r' : ρ) := added call r jobs rest here after r'
    rw [here] at own
    rw [after]
    refine ⟨fun asynchronous r' => (now r').trans (own.1 asynchronous r'), fun synchronous => ?_⟩
    obtain ⟨length, bound⟩ := own.2 synchronous
    exact ⟨length, fun r' => (now r').trans_le (bound r')⟩
  | @added _ call here =>
    rw [here] at own before
    simp only [State.setClient_clients, Function.update_self] at before ⊢
    rw [before rfl (by split_ifs <;> rfl)]
    split_ifs with synchronous
    · exact own.2 synchronous
    · exact own.1 (Bool.not_eq_true _ ▸ synchronous)
  | returns here zero =>
    rw [here] at own before
    simp only [State.setClient_clients, Function.update_self] at before ⊢
    rw [before rfl rfl]
    intro r
    have none : (s.syncs c).absent = [] := List.eq_nil_of_length_eq_zero (own.1.symm.trans zero)
    have bound := own.2 r
    rw [none] at bound
    exact Nat.le_zero.mp bound

/-- A rank that arrives runs one of the SYNC jobs that are still there. -/
theorem SyncObject.arrive_counts {sync : SyncObject ρ} {before after : ρ → Nat}
    (length : sync.nrRanks = sync.absent.length) (bound : ∀ r', before r' ≤ sync.absent.count r')
    (step : ∀ r', before r' = (if r = r' then 1 else 0) + after r') :
    (sync.arrive r).nrRanks = (sync.arrive r).absent.length ∧ ∀ r', after r' ≤ (sync.arrive r).absent.count r' := by
  have first := step r
  have least := bound r
  rw [if_pos rfl] at first
  have inside : r ∈ sync.absent := List.count_pos_iff.mp (by omega)
  have left : (sync.arrive r).absent = sync.absent.erase r := rfl
  refine ⟨?_, fun r' => ?_⟩
  · rw [SyncObject.arrive, length, List.length_erase_of_mem inside]
  · have next := step r'
    have most := bound r'
    rw [left]
    by_cases at_r : r = r'
    · subst at_r
      rw [List.count_erase_self]
      omega
    · rw [List.count_erase_of_ne (Ne.symm at_r)]
      rw [if_neg at_r] at next
      omega

theorem Move.counted_begin {call : Call ρ} (move : Move s (.begin c call) t) (counted : s.Counted) : t.Counted := by
  have frame := move.begin_frame.1
  have fifo (r : ρ) : t.unexecuted r = s.unexecuted r := State.unexecuted_congr (frame.api r).jobs frame.computed
  obtain ⟨idle⟩ := move
  intro c'
  have own := counted c'
  by_cases same : c' = c
  · subst same
    rw [idle] at own
    rw [State.setClient_clients, Function.update_self]
    refine ⟨fun r => ?_, fun synchronous => ?_⟩
    · have before := own r
      rw [State.pending, idle] at before
      rw [State.pending, fifo, State.setClient_clients, Function.update_self]
      exact before
    · have synchronous : call.isSynchronous = true := synchronous
      rw [if_pos synchronous]
      simp only [State.setClient, State.setSync_syncs, Function.update_self]
      exact ⟨rfl, rfl⟩
  · have client : ((if call.isSynchronous then s.setSync c (.init call.usedRanks) else s).setClient c
        (.getting (.start call))).clients c' = s.clients c' := by
      rw [State.setClient_clients, Function.update_of_ne same]
      split_ifs <;> rfl
    have sync : ((if call.isSynchronous then s.setSync c (.init call.usedRanks) else s).setClient c
        (.getting (.start call))).syncs c' = s.syncs c' := by
      split_ifs
      · exact Function.update_of_ne same ..
      · rfl
    have pending : ((if call.isSynchronous then s.setSync c (.init call.usedRanks) else s).setClient c
        (.getting (.start call))).pending c' = s.pending c' :=
      funext fun r => by rw [State.pending, State.pending, fifo, client]
    rw [client, sync, pending]
    exact own

theorem Move.counted_compute {status : DpuError} (move : Move s (.compute w status) t) (inv : s.Inv)
    (plain : s.Plain)
    (quiet : PlainJobs ⟨s, .compute w status, t⟩) (counted : s.Counted) : t.Counted := by
  have clients := move.compute_frame.clients
  have moved (c : κ) (r : ρ) : s.pending c r =
      ((executedBy r ⟨s, .compute w status, t⟩).map ThreadJob.type).count (.sync c) + t.pending c r := by
    have same :=
      congrArg (fun jobs => (jobs.map ThreadJob.type).count (.sync c)) (move.unexecuted inv plain quiet r)
    simp only [appendedBy, List.append_nil, List.map_append, List.count_append] at same
    rw [State.pending, State.pending, same, clients, Nat.add_assoc]
  have unlike {r : ρ} {job : ThreadJob κ} (here : s.workers w = .run r job) : job.Plain :=
    plain.jobs r job (List.mem_of_head? ((inv.placed r).of_hand (w := w) (by rw [here]; rfl)).1)
  have count (c : κ) (r' : ρ) {r : ρ} {job : ThreadJob κ} (here : s.workers w = .run r job) :
      ((executedBy r' ⟨s, .compute w status, t⟩).map ThreadJob.type).count (.sync c) =
        if r = r' ∧ job.type = .sync c then 1 else 0 := by
    simp only [executedBy, here]
    by_cases same : r = r' <;> by_cases type : job.type = .sync c <;> simp [same, type]
  intro c
  have own := counted c
  cases move with
  | @works _ r job _ here type =>
    have pending : ((s.setWorker w (.done r job status)).pending c) = s.pending c := by
      funext r'
      have moved := moved c r'
      rw [count c r' here, type, if_neg (by simp), Nat.zero_add] at moved
      exact moved.symm
    rw [pending]
    exact own
  | @syncs _ r job c' here type =>
    have step (r' : ρ) := moved c r'
    simp only [count c _ here, type, JobType.sync.injEq] at step
    by_cases same : c' = c
    · subst same
      have arrive (before : (s.syncs c').nrRanks = (s.syncs c').absent.length ∧
          ∀ r, s.pending c' r ≤ (s.syncs c').absent.count r) :=
        SyncObject.arrive_counts before.1 before.2 fun r' => by simpa using step r'
      have some : s.pending c' r ≠ 0 := by
        have first := step r
        simp only [and_self, if_true] at first
        omega
      have sync : ((s.setSync c' ((s.syncs c').arrive r)).setWorker w (.done r job .ok)).syncs c' =
          (s.syncs c').arrive r :=
        Function.update_self ..
      rw [sync, clients]
      cases pc : s.clients c' with
      | adding call jobs =>
        rw [pc] at own
        refine ⟨fun asynchronous => absurd (own.1 asynchronous r) some, fun synchronous =>
          arrive (own.2 synchronous)⟩
      | waiting call =>
        rw [pc] at own
        exact arrive own
      | getting g | asleep g =>
        rw [pc] at own
        exact absurd (own.1 r) some
      | idle | ungetting | resetting =>
        rw [pc] at own
        exact absurd (own r) some
    · have pending : ((s.setSync c' ((s.syncs c').arrive r)).setWorker w (.done r job .ok)).pending c =
          s.pending c := by
        funext r'
        have next := step r'
        rw [if_neg fun both => same both.2, Nat.zero_add] at next
        exact next.symm
      have sync : ((s.setSync c' ((s.syncs c').arrive r)).setWorker w (.done r job .ok)).syncs c = s.syncs c :=
        Function.update_of_ne (Ne.symm same) ..
      rw [sync, clients, pending]
      exact own
  | calls _ here type | callsNonblocking _ here type | arrives here type | parks here type
      | callsLastNonblocking _ here type
    | callsLast _ here type =>
    rcases unlike here with work | ⟨c, sync⟩
    · rw [type] at work
      cases work
    · rw [type] at sync
      cases sync

theorem Move.counted_worker (move : Move s (.worker w) t) (inv : s.Inv) (plain : s.Plain)
    (quiet : PlainJobs ⟨s, .worker w, t⟩) (counted : s.Counted) : t.Counted := by
  have clients := move.worker_frame.clients
  have syncs : t.syncs = s.syncs := by
    have own := plain.workers w
    cases move with
    | updatesStatus here error =>
      rw [here] at own
      cases own
      exact absurd rfl error
    | inserts here =>
      rw [here] at own
      cases own
    | takes | detaches | leaves | leavesMaster | wakesRank | releases | advances => rfl
  have pending (c : κ) : t.pending c = s.pending c := by
    funext r
    have same := move.unexecuted inv plain quiet r
    have same : s.unexecuted r = t.unexecuted r := by simpa [appendedBy, executedBy] using same
    rw [State.pending, State.pending, same, clients]
  intro c
  rw [clients, syncs, pending]
  exact counted c

theorem Move.counted (move : Move s a t) (inv : s.Inv) (plain : s.Plain) (quiet : PlainJobs ⟨s, a, t⟩)
    (counted : s.Counted) : t.Counted := by
  cases a with
  | begin c call => exact move.counted_begin counted
  | client c =>
    intro c'
    by_cases same : c' = c
    · subst same
      exact move.counted_client inv plain quiet counted
    · have client : t.clients c' = s.clients c' := by
        cases move.client_case (inv.clients c) with
        | quiet _ _ _ others | setsMaster _ _ _ others => exact others c' same
        | adds here added =>
          rw [added, State.setClient_clients, State.addJobs_clients, Function.update_of_ne same]
      rw [client, move.client_syncs, funext fun r => move.pending_other inv plain quiet same client r]
      exact counted c'
  | compute w status => exact move.counted_compute inv plain quiet counted
  | worker w => exact move.counted_worker inv plain quiet counted

/-- The call of a client that adds its jobs or has added them. -/
def ClientPc.adds? : ClientPc ρ κ → Option (Call ρ)
  | .adding call _ => some call
  | .waiting call => some call
  | _ => none

theorem Call.Plain.last {call : Call ρ} (plain : call.Plain) (synchronous : call.isSynchronous = true) :
    (call.types c).getLast? = .some (.sync c) := by
  unfold Call.isSynchronous at synchronous
  unfold Call.types
  cases kind : call.kind with
  | async => simp [kind] at synchronous
  | synchronous | sync => rfl
  | callback flags => exact absurd kind (plain flags)

theorem AddedBy.next {history added : List (Transition (State ρ κ ω) (Action ρ κ ω))} {call : Call ρ}
    {τ : Transition (State ρ κ ω) (Action ρ κ ω)} (before : AddedBy history c call r added)
    (unlike : ∀ call', τ.action ≠ .begin c call') : AddedBy (τ :: history) c call r added := by
  obtain ⟨later, σ, earlier, jobs, rest, rfl, same, action, here, last, none⟩ := before
  refine ⟨τ :: later, σ, earlier, jobs, rest, rfl, same, action, here, last, fun τ' member => ?_⟩
  rcases List.mem_cons.mp member with rfl | old
  · exact unlike
  · exact none τ' old

/-- A synchronous call has added its jobs to the FIFOs of all ranks that are not still ahead. -/
theorem JobRun.addedBy {start : State ρ κ ω} {history : List (Transition (State ρ κ ω) (Action ρ κ ω))}
    (created : start.Created) (run : JobRun start history s) (plain : ∀ τ ∈ history, PlainJobs τ) {call : Call ρ}
    (here : (s.clients c).adds? = some call) (synchronous : call.isSynchronous = true) (member : r ∈ call.usedRanks)
    (passed : r ∉ (s.clients c).toAdd.map Prod.fst) : ∃ added, AddedBy history c call r added := by
  induction run with
  | start =>
    rw [created.clients c] at here
    cases here
  | @next earlier u a v previous step ih =>
    obtain ⟨quiet, before⟩ := List.forall_mem_cons.mp plain
    obtain ⟨inv, orderly, _⟩ := JobRun.appended_eq created previous before
    have goesOn (same : v.clients c = u.clients c) (unlike : ∀ call', a ≠ .begin c call') :
        ∃ added, AddedBy (⟨u, a, v⟩ :: earlier) c call r added := by
      rw [same] at here passed
      obtain ⟨added, marked⟩ := ih before here passed
      exact ⟨added, marked.next unlike⟩
    have move := step.move
    cases a with
    | worker w => exact goesOn (congrFun move.worker_frame.clients c) fun _ => by simp
    | compute w status => exact goesOn (congrFun move.compute_frame.clients c) fun _ => by simp
    | begin c' call' =>
      obtain ⟨idle⟩ := move
      by_cases same : c = c'
      · subst same
        rw [State.setClient_clients, Function.update_self] at here
        cases here
      · refine goesOn ?_ fun call'' other => same (Action.begin.inj other).1.symm
        rw [State.setClient_clients, Function.update_of_ne same]
        split_ifs <;> rfl
    | client c' =>
      by_cases same : c = c'
      · subst same
        have own := orderly.clients c
        have ok := inv.clients c
        have go {u' : State ρ κ ω} {pc : ClientPc ρ κ}
            (set : (u'.setClient c pc).clients c = pc := Function.update_self ..) := set
        cases move with
        | @adds _ call' r' jobs rest at_c =>
          rw [at_c] at own ih
          rw [go] at here passed
          obtain rfl := Option.some.inj here
          by_cases at_r : r = r'
          · subst at_r
            refine ⟨_, [], _, earlier, jobs, rest, rfl, rfl, rfl, at_c, ?_, by simp⟩
            rw [own.2 (r, jobs) List.mem_cons_self]
            exact own.1.last synchronous
          · obtain ⟨added, marked⟩ := ih before rfl fun inside => (List.mem_cons.mp inside).elim at_r passed
            exact ⟨added, marked.next fun _ => by simp⟩
        | @setsJobs _ g at_c todo needs =>
          rw [at_c] at own ok
          rw [go] at here passed
          obtain rfl := Option.some.inj here
          refine absurd ?_ passed
          have noMaster : g.master = none := by
            by_contra some
            exact absurd ((ok.master some).symm.trans own.call.noMaster) (by simp)
          have ranks : g.got.map Prod.fst = g.call.usedRanks := by simpa [todo, noMaster] using ok.ranks
          simpa [ClientPc.toAdd, Function.comp_def, ranks] using member
        | @added _ call' at_c =>
          rw [at_c] at ih
          rw [go] at here
          split_ifs at here
          · obtain rfl := Option.some.inj here
            obtain ⟨added, marked⟩ := ih before rfl (by simp [ClientPc.toAdd])
            exact ⟨added, marked.next fun _ => by simp⟩
          · cases here
        | @setsMaster _ g owner slot got at_c todo chosen =>
          rw [at_c] at own ok
          have needs := ok.master (by rw [chosen]; exact Option.some_ne_none owner)
          exact absurd (needs.symm.trans own.call.noMaster) (by simp)
        | gets | sleeps | wakes | fails | ungets | unget | choosesMaster | returns | resets | reset =>
          rw [go] at here
          cases here
      · have others : v.clients c = u.clients c := by
          cases move.client_case (inv.clients c') with
          | quiet _ _ _ others | setsMaster _ _ _ others => exact others c same
          | adds here added =>
            rw [added, State.setClient_clients, State.addJobs_clients, Function.update_of_ne same]
        exact goesOn others fun _ => by simp

theorem JobRun.counted {start : State ρ κ ω} {history : List (Transition (State ρ κ ω) (Action ρ κ ω))}
    (created : start.Created) (run : JobRun start history s) (plain : ∀ τ ∈ history, PlainJobs τ) : s.Counted := by
  induction run with
  | start =>
    intro c
    rw [created.clients c]
    intro r
    have fifo : start.unexecuted r = [] := by
      unfold State.unexecuted
      simp [(created.api r).jobs]
    simp [State.pending, fifo, created.clients c, ClientPc.toAdd, ofRank]
  | @next earlier u a v previous step ih =>
    obtain ⟨quiet, before⟩ := List.forall_mem_cons.mp plain
    obtain ⟨inv, orderly, _⟩ := JobRun.appended_eq created previous before
    exact step.move.counted inv orderly quiet (ih before)

/-- Two lists that a third one starts with: the first one is no longer than
the second, unless the second lies in it and something is left. -/
theorem prefix_or {α : Type} {front mid back rest : List α} (same : front ++ back = mid ++ rest) :
    front <+: mid ∨ ∃ left, left ≠ [] ∧ front = mid ++ left ∧ rest = left ++ back := by
  rcases List.append_eq_append_iff.mp same with ⟨left, rfl, rfl⟩ | ⟨left, rfl, rfl⟩
  · exact .inl (List.prefix_append front left)
  · by_cases empty : left = []
    · subst empty
      exact .inl (by simp)
    · exact .inr ⟨left, empty, rfl, rfl⟩

/-- When the last SYNC job of a call has been executed, so has everything before it. -/
theorem JobRun.callExecuted {start : State ρ κ ω} {history : List (Transition (State ρ κ ω) (Action ρ κ ω))}
    (created : start.Created) (run : JobRun start history s) (plain : ∀ τ ∈ history, PlainJobs τ) {call : Call ρ}
    (here : s.clients c = .waiting call) (zero : (s.syncs c).nrRanks = 0) : CallExecuted history c call := by
  intro r member
  obtain ⟨inv, orderly, same⟩ := JobRun.appended_eq created run plain
  have own := orderly.clients c
  have counts := JobRun.counted created run plain c
  rw [here] at own counts
  obtain ⟨added, marked⟩ := JobRun.addedBy created run plain (by rw [here]; rfl) own.2 member
    (by rw [here]; simp [ClientPc.toAdd])
  refine ⟨added, marked, ?_⟩
  obtain ⟨later, σ, earlier, jobs, rest, rfl, rfl, action, adding, last, _⟩ := marked
  obtain ⟨back, whole⟩ : appended r (σ :: earlier) <+: appended r (later ++ σ :: earlier) := appended_prefix
  refine (prefix_or (whole.trans (same r))).resolve_right ?_
  rintro ⟨left, some, front, unexecuted⟩
  -- the SYNC job would be among the jobs left
  have sync : left.getLast?.map ThreadJob.type = .some (.sync c) := by
    have ends : (appended r (σ :: earlier)).getLast?.map ThreadJob.type = .some (.sync c) := by
      have by_σ : appendedBy r σ = jobs := by simp [appendedBy, action, adding, ClientPc.toAdd]
      rw [List.getLast?_map] at last
      rw [appended_cons, by_σ, List.getLast?_append]
      cases at_end : jobs.getLast? with
      | none => simp [at_end] at last
      | some job =>
        rw [at_end] at last
        exact last
    rw [front, List.getLast?_append] at ends
    cases at_end : left.getLast? with
    | none => exact absurd (List.getLast?_eq_none_iff.mp at_end) some
    | some job =>
      rw [at_end] at ends
      exact ends
  have inside : JobType.sync c ∈ (s.unexecuted r).map ThreadJob.type := by
    obtain ⟨job, at_end, type⟩ := Option.map_eq_some_iff.mp sync
    rw [unexecuted, List.map_append]
    exact List.mem_append_left _ (List.mem_map.mpr ⟨job, List.mem_of_getLast? at_end, type⟩)
  have absent : (s.syncs c).absent = [] := List.eq_nil_of_length_eq_zero (counts.1.symm.trans zero)
  have bound := counts.2 r
  rw [absent, State.pending] at bound
  have positive := List.count_pos_iff.mpr inside
  simp only [List.count_nil] at bound
  omega

theorem JobRun.alive {start : State ρ κ ω} {history : List (Transition (State ρ κ ω) (Action ρ κ ω))}
    (created : start.Created) (run : JobRun start history s) (plain : ∀ τ ∈ history, PlainJobs τ) (q : Nat) :
    none ∉ s.queue q := by
  cases run with
  | start => simp [created.queue q]
  | @next earlier u a v previous step =>
    obtain ⟨_, before⟩ := List.forall_mem_cons.mp plain
    obtain ⟨inv, orderly, _⟩ := JobRun.appended_eq created previous before
    refine (step.move.real_iff inv step.alive).mpr ?_ q
    intro w r job status m other others _ waking
    have own := orderly.workers w
    rw [waking] at own
    cases own

theorem Wakes.exists (waiters : List κ) : ∃ woken, Wakes waiters woken := by
  cases waiters with
  | nil => exact ⟨none, rfl⟩
  | cons thread rest => exact ⟨some thread, List.mem_cons_self⟩

/-- A worker with a job can always go on. -/
theorem State.Plain.goes_on (plain : s.Plain) (inv : s.Inv) (busy : s.workers w ≠ .idle) :
    ∃ a t, (a = .worker w ∨ a = .compute w .ok) ∧ Move s a t := by
  cases here : s.workers w with
  | run r job =>
    have member :=
      List.mem_of_head? ((inv.placed r).of_hand (show (s.workers w).hand? = some (r, job) by rw [here]; rfl)).1
    rcases plain.jobs r job member with work | ⟨c, sync⟩
    · exact ⟨_, _, .inr rfl, .works .ok here work⟩
    · exact ⟨_, _, .inr rfl, .syncs here sync⟩
  | done r job status =>
    have own := plain.workers w
    rw [here] at own
    obtain ⟨woken, wakes⟩ := Wakes.exists (s.api r).waiters
    cases own
    exact ⟨_, _, .inl rfl, .advances here wakes⟩
  | idle => exact absurd here busy
  | detaching | inserting | detached | waking =>
    have own := plain.workers w
    rw [here] at own
    cases own

end

/-- A run without callbacks and failures. -/
def PlainRun (start s : State ρ κ ω) : Prop :=
  start.Created ∧ ∃ history, JobRun start history s ∧ ∀ τ ∈ history, PlainJobs τ

theorem PlainRun.next {start s t : State ρ κ ω} {a : Action ρ κ ω} (before : PlainRun start s) (move : Move s a t)
    (noCallback : ∀ c call flags, a = .begin c call → call.kind ≠ .callback flags)
    (noFailure : ∀ w status, a = .compute w status → status = .ok) : PlainRun start t := by
  obtain ⟨created, history, run, plain⟩ := before
  exact ⟨created, _, run.next ⟨JobRun.alive created run plain, move⟩,
    List.forall_mem_cons.mpr ⟨⟨noCallback, noFailure⟩, plain⟩⟩

/-- A synchronous call on two ranks. -/
def pairCall : Call Bool where
  ranks := [false, true]
  kind := .synchronous
  nodup := twoRanks_nodup
  some := twoRanks_some
  accepted := nofun

/-- The call on two ranks is done on both of them. -/
theorem pairCall_run : ∃ s, PlainRun State.pair s ∧ s.clients () = .waiting pairCall ∧
      (s.syncs ()).nrRanks = 0 := by
  have run : PlainRun State.pair State.pair := ⟨State.pair_created, _, .start, by simp⟩
  have run :=
    run.next (a := .begin () pairCall) (.begin rfl) (fun _ _ _ same => (Action.begin.inj same).2 ▸ nofun) nofun
  have run := run.next (a := .client ()) (.gets rfl rfl rfl) nofun nofun
  have run := run.next (a := .client ()) (.gets rfl rfl rfl) nofun nofun
  have run := run.next (a := .client ()) (.setsJobs rfl rfl rfl) nofun nofun
  have run := run.next (a := .client ()) (.adds rfl) nofun nofun
  have run := run.next (a := .client ()) (.adds rfl) nofun nofun
  have run := run.next (a := .client ()) (.added rfl) nofun nofun
  have ok (w : Unit) (status : DpuError) (same : (.compute () .ok : Action Bool Unit Unit) = .compute w status) :
      status = .ok := (Action.compute.inj same).2.symm
  have run := run.next (a := .worker ()) (.takes rfl (show _ = _ from rfl)) nofun nofun
  have run := run.next (a := .compute () .ok) (.works .ok rfl rfl) nofun ok
  have run := run.next (a := .worker ()) (.advances (show _ = _ from rfl) (show Wakes [] none from rfl)) nofun nofun
  have run := run.next (a := .compute () .ok) (.syncs (show _ = _ from rfl) rfl) nofun ok
  have run := run.next (a := .worker ()) (.advances (show _ = _ from rfl) (show Wakes [] none from rfl)) nofun nofun
  have run := run.next (a := .worker ()) (.takes rfl (show _ = _ from rfl)) nofun nofun
  have run := run.next (a := .compute () .ok) (.works .ok rfl rfl) nofun ok
  have run := run.next (a := .worker ()) (.advances (show _ = _ from rfl) (show Wakes [] none from rfl)) nofun nofun
  have run := run.next (a := .compute () .ok) (.syncs (show _ = _ from rfl) rfl) nofun ok
  exact ⟨_, run, rfl, rfl⟩

section
variable {s : State ρ κ ω}

/-- The jobs of every rank are executed in order in every run without callbacks and failures. -/
theorem JobRun.inOrder {start s : State ρ κ ω} {history : List (Transition (State ρ κ ω) (Action ρ κ ω))}
    (created : start.Created) (run : JobRun start history s) (plain : ∀ τ ∈ history, PlainJobs τ) :
    InOrder history s := by
  obtain ⟨inv, orderly, same⟩ := JobRun.appended_eq created run plain
  have alive := JobRun.alive created run plain
  constructor
  case single => exact fun r w w' job job' hand hand' => ((inv.placed r).of_hand hand').2.1 w job hand
  case next =>
    intro w r job here
    exact ⟨_, (same r).trans (congrArg _ (inv.unexecuted_run here))⟩
  case order => exact fun r => ⟨_, (same r).symm⟩
  case whole =>
    intro r empty
    have none : s.unexecuted r = [] := by
      unfold State.unexecuted
      simp [empty]
    rw [same r, none, List.append_nil]
  case progress =>
    rintro r some ⟨w, serves⟩
    suffices moves : ∃ w a t, (a = .worker w ∨ a = .compute w .ok) ∧ Move s a t by
      obtain ⟨w, a, t, kind, move⟩ := moves
      exact ⟨w, a, t, kind, alive, move⟩
    by_cases idle : s.workers w = .idle
    · cases inv.placed r with
      | empty none => exact absurd (List.head?_eq_none_iff.mp none) some
      | parked _ _ _ at_park => exact absurd (orderly.parked r) (by simp [at_park])
      | @held w' job _ hand =>
        refine ⟨w', orderly.goes_on inv fun idle' => ?_⟩
        rw [idle'] at hand
        cases hand
      | queued _ inside =>
        cases queue : s.queue (s.workerQueue w) with
        | nil =>
          rw [← serves, queue] at inside
          cases inside
        | cons first rest =>
          cases first with
          | none => exact absurd (by rw [queue]; exact List.mem_cons_self) (alive (s.workerQueue w))
          | some entry => exact ⟨w, _, _, .inl rfl, .takes idle queue⟩
    · exact ⟨w, orderly.goes_on inv idle⟩
  case synchronised => exact fun c call here zero => JobRun.callExecuted created run plain here zero
  case returned =>
    intro c call t here step
    have zero : (s.syncs c).nrRanks = 0 := by
      cases step.move with
      | returns _ zero => exact zero
      | gets here' | sleeps here' | wakes here' | fails here' | ungets here' | unget here' | choosesMaster here'
        | setsJobs here' | setsMaster here' | adds here' | added here' | resets here' | reset here' =>
        rw [here] at here'
        cases here'
    exact JobRun.callExecuted created run plain here zero

end

/-- The call on both ranks returns when its jobs have been executed. -/
theorem inOrder_pairCall : ∃ history s, JobRun State.pair history s ∧ s.clients () = .waiting pairCall ∧
    (s.syncs ()).nrRanks = 0 ∧ InOrder history s := by
  obtain ⟨s, ⟨created, history, run, plain⟩, here, zero⟩ := pairCall_run
  exact ⟨history, s, run, here, zero, JobRun.inOrder created run plain⟩

end Upmem.Jobs
