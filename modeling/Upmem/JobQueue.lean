import Upmem.Jobs

set_option linter.unusedSectionVars false

namespace Upmem.Jobs
open Transitions
variable {ρ κ ω : Type}

/-- The slots that a call has taken are those of its first ranks, and it
still wants some of each of the others. -/
structure Getting.Ok (g : Getting ρ) : Prop where
  ranks : g.got.map Prod.fst ++ g.todo.map Prod.fst = g.call.usedRanks ++ g.master.toList
  needs : ∀ entry ∈ g.todo, 0 < entry.2
  filled : ∀ entry ∈ g.got, entry.2 ≠ []
  master : g.master ≠ none → g.call.needsMaster = true

theorem Call.usedRanks_nodup (call : Call ρ) : call.usedRanks.Nodup := by
  unfold Call.usedRanks
  split
  · split_ifs
    · exact call.nodup.sublist (List.take_sublist ..)
    · exact call.nodup
  · exact call.nodup

theorem Getting.start_ok (call : Call ρ) : (Getting.start call).Ok where
  ranks := by simp [Getting.start, Function.comp_def]
  needs := by
    intro entry member
    obtain ⟨rank, _, rfl⟩ := List.mem_map.mp member
    unfold Call.nrJobsPerRank
    dsimp only
    split <;> try split_ifs
    all_goals decide
  filled := by simp [Getting.start]
  master := by simp [Getting.start]

theorem RankApi.getJobs_got {need : Nat} {hand hand' : List Nat} {api api' : RankApi κ}
    (got : api.getJobs need hand = (.got hand', api')) : hand'.length = hand.length + need := by
  induction need generalizing hand api with
  | zero =>
    cases got
    rfl
  | succ need ih =>
    unfold RankApi.getJobs at got
    split_ifs at got
    · cases got
    split at got
    · cases got
    · rw [ih got, List.length_append, List.length_singleton]
      omega

theorem RankApi.getJobs_sleeps {need need' : Nat} {hand hand' : List Nat} {api api' : RankApi κ}
    (sleeps : api.getJobs need hand = (.sleeps need' hand', api')) :
    0 < need' ∧ hand'.length + need' = hand.length + need ∧ api'.availableJobs = [] ∧ api.jobError = .ok := by
  induction need generalizing hand api with
  | zero => cases sleeps
  | succ need ih =>
    unfold RankApi.getJobs at sleeps
    split_ifs at sleeps with ok
    · cases sleeps
    split at sleeps
    next empty =>
      cases sleeps
      exact ⟨Nat.succ_pos need, rfl, empty, not_not.mp ok⟩
    next =>
      obtain ⟨some, length, empty, fine⟩ := ih sleeps
      refine ⟨some, ?_, empty, fine⟩
      rw [length, List.length_append, List.length_singleton]
      omega

/-- What some entries hold of a rank. -/
def ofRank [DecidableEq ρ] {α : Type} (r : ρ) (entries : List (ρ × List α)) : List α :=
  entries.flatMap fun entry => if entry.1 = r then entry.2 else []

@[simp] theorem ofRank_append [DecidableEq ρ] {α : Type} {r : ρ} (front back : List (ρ × List α)) :
    ofRank r (front ++ back) = ofRank r front ++ ofRank r back :=
  List.flatMap_append

@[simp] theorem ofRank_singleton [DecidableEq ρ] {α : Type} {r r' : ρ} (entries : List α) :
    ofRank r' [(r, entries)] = if r = r' then entries else [] :=
  List.append_nil _

theorem ofRank_cons [DecidableEq ρ] {α : Type} {r r' : ρ} (entries : List α) (rest : List (ρ × List α)) :
    ofRank r' ((r, entries) :: rest) = (if r = r' then entries else []) ++ ofRank r' rest := rfl

/-- The jobs that a client still has to add. -/
def ClientPc.toAdd : ClientPc ρ κ → List (ρ × List (ThreadJob κ))
  | .adding _ jobs => jobs
  | _ => []

def ClientPc.Ok : ClientPc ρ κ → Prop
  | .getting g => g.Ok
  | .asleep g => g.Ok
  | .adding _ jobs => (jobs.map Prod.fst).Nodup ∧ ∀ entry ∈ jobs, entry.2 ≠ []
  | _ => True

theorem Call.jobsOf_ne_nil {call : Call ρ} {c : κ} {master : Option Nat} {slots : List Nat} (some : slots ≠ []) :
    call.jobsOf c master slots ≠ [] := by
  cases slots with
  | nil => exact absurd rfl some
  | cons slot slots => exact List.cons_ne_nil _ _

theorem Getting.Ok.jobs_ok {g : Getting ρ} (ok : g.Ok) {c : κ} {master : Option Nat} {front : List (ρ × List Nat)}
    (ranks : front.map Prod.fst = g.call.usedRanks) (inside : ∀ entry ∈ front, entry ∈ g.got) :
    ClientPc.Ok (.adding g.call (front.map fun (rank, slots) => (rank, g.call.jobsOf c master slots)) :
      ClientPc ρ κ) := by
  refine ⟨?_, fun entry member => ?_⟩
  · have same : (front.map fun (rank, slots) => (rank, g.call.jobsOf c master slots)).map Prod.fst =
        front.map Prod.fst := by simp [Function.comp_def]
    rw [same, ranks]
    exact g.call.usedRanks_nodup
  · obtain ⟨⟨rank, slots⟩, own, rfl⟩ := List.mem_map.mp member
    exact Call.jobsOf_ne_nil (ok.filled _ (inside _ own))

theorem Getting.Ok.ranks_of_master {g : Getting ρ} (ok : g.Ok) {owner : ρ} {slots : List Nat}
    {front : List (ρ × List Nat)}
    (todo : g.todo = []) (some : g.master = some owner) (last : g.got = front ++ [(owner, slots)]) :
    front.map Prod.fst = g.call.usedRanks := by
  have ranks := ok.ranks
  rw [todo, some, last] at ranks
  simpa using ranks

/-- The rank and the job at the head of its FIFO that a worker has in hand. -/
def WorkerPc.hand? : WorkerPc ρ κ → Option (ρ × ThreadJob κ)
  | .run r job => some (r, job)
  | .detaching r job _ => some (r, job)
  | .inserting r next _ => next.map fun next => (r, next)
  | .waking r job _ _ _ => some (r, job)
  | .done r job _ => some (r, job)
  | _ => none

def State.Queued (s : State ρ κ ω) (r : ρ) : Prop := ∃ q job, some (r, job) ∈ s.queue q

def State.Held (s : State ρ κ ω) (r : ρ) : Prop := ∃ w job, (s.workers w).hand? = some (r, job)

/-- Where the head of the FIFO of a rank is. -/
inductive State.Placed (s : State ρ κ ω) (r : ρ) : Prop
  | empty : (s.api r).jobs.head? = none → ¬ s.Queued r → ¬ s.Held r → s.parked r = false → Placed s r
  | queued {job} : (s.api r).jobs.head? = some job → some (r, job) ∈ s.queue (s.api r).queueIdx →
      (∀ q job', some (r, job') ∈ s.queue q → (s.api r).queueIdx = q ∧ job' = job) → ¬ s.Held r →
      s.parked r = false → Placed s r
  | held {w job} : (s.api r).jobs.head? = some job → (s.workers w).hand? = some (r, job) →
      (∀ w' job', (s.workers w').hand? = some (r, job') → w' = w) → ¬ s.Queued r → s.parked r = false → Placed s r
  | parked {job} : (s.api r).jobs.head? = some job → ¬ s.Queued r → ¬ s.Held r → s.parked r = true → Placed s r

/-- A rank is where it was. -/
structure SamePlace (s t : State ρ κ ω) (r : ρ) : Prop where
  head : (t.api r).jobs.head? = (s.api r).jobs.head?
  queueIdx : (t.api r).queueIdx = (s.api r).queueIdx
  queue : ∀ q job, some (r, job) ∈ t.queue q ↔ some (r, job) ∈ s.queue q
  hand : ∀ w job, (t.workers w).hand? = some (r, job) ↔ (s.workers w).hand? = some (r, job)
  parked : t.parked r = s.parked r

section
variable {s t : State ρ κ ω} {r : ρ} {w : ω} {job : ThreadJob κ}

theorem SamePlace.placed (same : SamePlace s t r) (placed : s.Placed r) : t.Placed r := by
  have queued : t.Queued r ↔ s.Queued r := exists₂_congr same.queue
  have held : t.Held r ↔ s.Held r := exists₂_congr same.hand
  cases placed with
  | empty none notQueued notHeld notParked =>
    exact .empty (same.head.trans none) (queued.not.mpr notQueued) (held.not.mpr notHeld)
      (same.parked.trans notParked)
  | queued head here only notHeld notParked =>
    refine .queued (same.head.trans head) ?_ (fun q job' member => ?_) (held.not.mpr notHeld)
      (same.parked.trans notParked)
    · rw [same.queueIdx]
      exact (same.queue _ _).mpr here
    · rw [same.queueIdx]
      exact only q job' ((same.queue q job').mp member)
  | @held w job head here only notQueued notParked =>
    exact .held (same.head.trans head) ((same.hand w job).mpr here)
      (fun w' job' at_w => only w' job' ((same.hand w' job').mp at_w))
      (queued.not.mpr notQueued) (same.parked.trans notParked)
  | parked head notQueued notHeld parked =>
    exact .parked (same.head.trans head) (queued.not.mpr notQueued) (held.not.mpr notHeld)
      (same.parked.trans parked)

/-- A rank whose head a worker has in hand is nowhere else. -/
theorem State.Placed.of_hand (placed : s.Placed r) (hand : (s.workers w).hand? = some (r, job)) :
    (s.api r).jobs.head? = some job ∧ (∀ w' job', (s.workers w').hand? = some (r, job') → w' = w) ∧
      ¬ s.Queued r ∧ s.parked r = false := by
  cases placed with
  | empty _ _ notHeld | queued _ _ _ notHeld | parked _ _ notHeld => exact absurd ⟨w, job, hand⟩ notHeld
  | held head here only notQueued notParked =>
    obtain rfl := only w job hand
    obtain ⟨_, rfl⟩ := Prod.mk.inj (Option.some.inj (here.symm.trans hand))
    exact ⟨head, only, notQueued, notParked⟩

theorem State.Placed.of_empty (placed : s.Placed r) (empty : (s.api r).jobs = []) :
    ¬ s.Queued r ∧ ¬ s.Held r ∧ s.parked r = false := by
  cases placed with
  | empty _ notQueued notHeld notParked => exact ⟨notQueued, notHeld, notParked⟩
  | queued head | held head | parked head =>
    rw [empty] at head
    cases head

theorem State.Placed.of_parked (placed : s.Placed r) (parked : s.parked r = true) :
    ¬ s.Queued r ∧ ¬ s.Held r := by
  cases placed with
  | empty _ _ _ notParked | queued _ _ _ _ notParked | held _ _ _ _ notParked =>
    exact absurd (notParked.symm.trans parked) Bool.false_ne_true
  | parked _ notQueued notHeld => exact ⟨notQueued, notHeld⟩

theorem State.Placed.of_queue (placed : s.Placed r) {q : Nat} (queued : some (r, job) ∈ s.queue q) :
    (s.api r).queueIdx = q ∧ (s.api r).jobs.head? = some job ∧
      (∀ q' job', some (r, job') ∈ s.queue q' → q' = q ∧ job' = job) ∧ ¬ s.Held r ∧ s.parked r = false := by
  cases placed with
  | empty _ notQueued | held _ _ _ notQueued | parked _ notQueued => exact absurd ⟨q, job, queued⟩ notQueued
  | queued head here only notHeld notParked =>
    obtain ⟨rfl, rfl⟩ := only q job queued
    exact ⟨rfl, head,
      fun q' job' member => ⟨(only q' job' member).1.symm, (only q' job' member).2⟩, notHeld, notParked⟩

/-- What a worker gives its new place in the code changes nothing for a rank
that it had and has not in hand. -/
theorem hand_update [DecidableEq ω] {pc : WorkerPc ρ κ} {workers : ω → WorkerPc ρ κ}
    (before : ∀ job, (workers w).hand? ≠ some (r, job)) (after : ∀ job, pc.hand? ≠ some (r, job))
    (w' : ω) (job : ThreadJob κ) :
    (Function.update workers w pc w').hand? = some (r, job) ↔ (workers w').hand? = some (r, job) := by
  by_cases same : w' = w
  · subst same
    rw [Function.update_self]
    exact iff_of_false (after job) (before job)
  · rw [Function.update_of_ne same]

end

variable [DecidableEq ρ] [DecidableEq κ] [DecidableEq ω]

theorem State.addJobs_clients (s : State ρ κ ω) (r : ρ) (jobs : List (ThreadJob κ)) :
    (s.addJobs r jobs).clients = s.clients := by
  unfold State.addJobs
  split_ifs <;> rfl

/-- A worker leaves the clients and their calls alone. -/
structure WorkerFrame (s t : State ρ κ ω) : Prop where
  clients : t.clients = s.clients
  workerQueue : t.workerQueue = s.workerQueue
  nextMaster : t.nextMaster = s.nextMaster

theorem Move.compute_frame {s t : State ρ κ ω} {w : ω} {status : DpuError} (move : Move s (.compute w status) t) :
    WorkerFrame s t := by
  cases move <;> exact ⟨rfl, rfl, rfl⟩

theorem Move.worker_frame {s t : State ρ κ ω} {w : ω} (move : Move s (.worker w) t) : WorkerFrame s t := by
  cases move with
  | @inserts _ r next m =>
    unfold State.insertRankList
    split_ifs <;> exact ⟨rfl, rfl, rfl⟩
  | @updatesStatus _ r job status woken =>
    obtain ⟨syncs, dropped⟩ := s.updateStatus_eq r status woken
    rw [dropped]
    exact ⟨rfl, rfl, rfl⟩
  | takes | detaches | leaves | leavesMaster | wakesRank | releases | advances => exact ⟨rfl, rfl, rfl⟩

/-- What every client knows about its own call. -/
theorem Move.clients_ok {s t : State ρ κ ω} {a : Action ρ κ ω} (move : Move s a t)
    (ok : ∀ c, (s.clients c).Ok) (c : κ) :
    (t.clients c).Ok := by
  have set {u : State ρ κ ω} {c' : κ} {pc : ClientPc ρ κ} (same : u.clients = s.clients) (own : pc.Ok) :
      ((u.setClient c' pc).clients c).Ok := by
    by_cases here : c = c'
    · subst here
      simpa [State.setClient] using own
    · simpa [State.setClient, here, same] using ok c
  have at_pc {c' : κ} {pc : ClientPc ρ κ} (here : s.clients c' = pc) : pc.Ok := here ▸ ok c'
  cases a with
  | worker w => exact move.worker_frame.clients ▸ ok c
  | compute w status => exact move.compute_frame.clients ▸ ok c
  | begin c' call =>
    obtain ⟨idle⟩ := move
    refine set ?_ (Getting.start_ok call)
    split_ifs <;> rfl
  | client c' =>
  cases move with
  | @gets _ g r need rest hand api here todo got =>
    have own : g.Ok := at_pc here
    refine set rfl ⟨?_, fun entry member => own.needs entry (by rw [todo]; exact .tail _ member), ?_, own.master⟩
    · rw [← own.ranks, todo]
      simp
    · intro entry member
      rcases List.mem_append.mp member with old | new
      · exact own.filled entry old
      · obtain rfl := List.mem_singleton.mp new
        have positive := own.needs (r, need) (by rw [todo]; exact List.mem_cons_self)
        have length := RankApi.getJobs_got got
        exact List.ne_nil_of_length_pos (by dsimp only at positive ⊢; omega)
  | @sleeps _ g r need rest need' hand api here todo sleeps =>
    have own : g.Ok := at_pc here
    refine set rfl ⟨?_, ?_, own.filled, own.master⟩
    · rw [← own.ranks, todo]
      rfl
    · intro entry member
      rcases List.mem_cons.mp member with rfl | later
      · exact (RankApi.getJobs_sleeps sleeps).1
      · exact own.needs entry (by rw [todo]; exact .tail _ later)
  | @wakes _ g r need rest here todo => exact set rfl (at_pc here : g.Ok)
  | @choosesMaster _ g owner here todo none needed =>
    have own : g.Ok := at_pc here
    refine set rfl ⟨?_, by simp, own.filled, fun _ => needed⟩
    have ranks := own.ranks
    rw [todo, none] at ranks
    simpa using ranks
  | @setsJobs _ g here todo unneeded =>
    have own : g.Ok := at_pc here
    have ranks := own.ranks
    have none : g.master = none := by
      by_contra some
      exact Bool.false_ne_true (unneeded.symm.trans (own.master some))
    rw [todo, none] at ranks
    exact set rfl (own.jobs_ok (by simpa using ranks) fun _ member => member)
  | @setsMaster _ g owner slot got here todo some last =>
    have own : g.Ok := at_pc here
    refine set rfl (own.jobs_ok (own.ranks_of_master todo some last) fun entry member => ?_)
    rw [last]
    exact List.mem_append_left _ member
  | @adds _ call r jobs rest here =>
    have own := at_pc here
    exact set (s.addJobs_clients r jobs) ⟨(List.nodup_cons.mp own.1).2,
      fun entry member => own.2 entry (.tail _ member)⟩
  | added => exact set rfl (by split_ifs <;> trivial)
  | fails | ungets | unget | returns | resets | reset => exact set rfl trivial

section
variable {s t u : State ρ κ ω} {r : ρ} {w : ω} {pc : WorkerPc ρ κ}

/-- A worker moves and its move concerns neither the rank nor the worker's hand as far as the rank is in it. -/
theorem SamePlace.of_other (head : (u.api r).jobs.head? = (s.api r).jobs.head?)
    (queueIdx : (u.api r).queueIdx = (s.api r).queueIdx)
    (queue : ∀ q job, some (r, job) ∈ u.queue q ↔ some (r, job) ∈ s.queue q) (workers : u.workers = s.workers)
    (parked : u.parked r = s.parked r) (before : ∀ job, (s.workers w).hand? ≠ some (r, job))
    (after : ∀ job, pc.hand? ≠ some (r, job)) : SamePlace s (u.setWorker w pc) r where
  head := head
  queueIdx := queueIdx
  queue := queue
  hand w' job := by
    rw [State.setWorker, workers]
    exact hand_update before after w' job
  parked := parked

/-- A worker moves with what it has in hand. -/
theorem SamePlace.of_hand (head : (u.api r).jobs.head? = (s.api r).jobs.head?)
    (queueIdx : (u.api r).queueIdx = (s.api r).queueIdx)
    (queue : ∀ q job, some (r, job) ∈ u.queue q ↔ some (r, job) ∈ s.queue q) (workers : u.workers = s.workers)
    (parked : u.parked r = s.parked r) (same : pc.hand? = (s.workers w).hand?) :
    SamePlace s (u.setWorker w pc) r where
  head := head
  queueIdx := queueIdx
  queue := queue
  hand w' job := by
    by_cases here : w' = w
    · subst here
      simp [State.setWorker, same]
    · simp [State.setWorker, workers, here]
  parked := parked

/-- A worker that has a rank in hand leaves the place of another rank alone. -/
theorem State.Placed.of_other {r' : ρ} {job : ThreadJob κ} (placed : s.Placed r)
    (hand : (s.workers w).hand? = some (r', job)) (different : r ≠ r') (after : ∀ job, pc.hand? ≠ some (r, job))
    (api : u.api r = s.api r) (queue : ∀ q job, some (r, job) ∈ u.queue q ↔ some (r, job) ∈ s.queue q)
    (workers : u.workers = s.workers) (parked : u.parked r = s.parked r) : (u.setWorker w pc).Placed r := by
  refine SamePlace.placed (.of_other (by rw [api]) (by rw [api]) queue workers parked ?_ after) placed
  rw [hand]
  simp [different.symm]

theorem State.not_held (workers : u.workers = s.workers)
    (only : ∀ w' job', (s.workers w').hand? = some (r, job') → w' = w) (after : ∀ job, pc.hand? ≠ some (r, job)) :
    ¬ (u.setWorker w pc).Held r := by
  rintro ⟨w', job', held⟩
  rw [State.setWorker_workers, workers] at held
  by_cases own : w' = w
  · subst own
    rw [Function.update_self] at held
    exact after job' held
  · rw [Function.update_of_ne own] at held
    exact own (only w' job' held)

theorem Move.placed_compute {status : DpuError} (move : Move s (.compute w status) t)
    (placed : ∀ r, s.Placed r) (r : ρ) :
    t.Placed r := by
  have keep {u : State ρ κ ω} {pc : WorkerPc ρ κ} {r' : ρ} {job : ThreadJob κ} (here : s.workers w = .run r' job)
      (api : u.api = s.api) (queue : u.queue = s.queue) (workers : u.workers = s.workers)
        (parked : u.parked = s.parked)
      (hand : pc.hand? = some (r', job)) : (u.setWorker w pc).Placed r :=
    (SamePlace.of_hand (by rw [api]) (by rw [api]) (by simp [queue]) workers (congrFun parked r)
      (by rw [hand, here]; rfl)).placed (placed r)
  cases move with
  | works _ here | syncs here | calls _ here | callsNonblocking _ here | arrives here
    | callsLastNonblocking _ here | callsLast _ here => exact keep here rfl rfl rfl rfl rfl
  | @parks _ r' job m here =>
    have hand : (s.workers w).hand? = some (r', job) := by rw [here]; rfl
    obtain ⟨head, only, notQueued, notParked⟩ := (placed r').of_hand hand
    by_cases same : r = r'
    · subst same
      exact .parked head notQueued (State.not_held rfl only (by simp [WorkerPc.hand?])) (Function.update_self ..)
    · exact (placed r).of_other hand same (by simp [WorkerPc.hand?]) rfl (fun _ _ => Iff.rfl) rfl
        (Function.update_of_ne same ..)

theorem State.insertRank_queue (s : State ρ κ ω) (r : ρ) (next : Option (ThreadJob κ)) :
    (s.insertRank r next).queue = Function.update s.queue (s.api r).queueIdx
      (s.queue (s.api r).queueIdx ++ [next.map fun job => (r, job)]) := rfl

/-- An insertion into the queue of a rank concerns no other rank. -/
theorem State.mem_insertRank {r' : ρ} (different : r ≠ r') (next : Option (ThreadJob κ)) (q : Nat)
    (job : ThreadJob κ) :
    some (r, job) ∈ (s.insertRank r' next).queue q ↔ some (r, job) ∈ s.queue q := by
  rw [State.insertRank_queue]
  by_cases own : q = (s.api r').queueIdx
  · subst own
    cases next <;> simp [different]
  · rw [Function.update_of_ne own]

theorem State.mem_insertRank_self {next : Option (ThreadJob κ)} (notQueued : ¬ s.Queued r) {q : Nat}
    {job : ThreadJob κ} : some (r, job) ∈ (s.insertRank r next).queue q ↔ (s.api r).queueIdx = q ∧
      next = some job := by
  have absent (q : Nat) : some (r, job) ∉ s.queue q := fun member => notQueued ⟨q, job, member⟩
  rw [State.insertRank_queue]
  by_cases own : q = (s.api r).queueIdx
  · subst own
    cases next <;> simp [absent, eq_comm]
  · rw [Function.update_of_ne own]
    exact iff_of_false (absent q) fun both => own both.1.symm

/-- The head of a FIFO that a worker has in hand is popped: the worker has the next job or is gone. -/
theorem State.Placed.of_pop {r' : ρ} {job : ThreadJob κ} {woken : Option κ} (placed : ∀ r, s.Placed r)
    (hand : (s.workers w).hand? = some (r', job))
    (after : pc.hand? = (s.api r').jobs.tail.head?.map fun next => (r', next)) (r : ρ) :
    ((s.setApi r' ((s.api r').advanceToNextJob woken).2).setWorker w pc).Placed r := by
  obtain ⟨_, only, notQueued, notParked⟩ := (placed r').of_hand hand
  by_cases same : r = r'
  · subst same
    cases tail : (s.api r).jobs.tail with
    | nil =>
      rw [tail] at after
      refine .empty ?_ notQueued (State.not_held rfl only ?_) notParked
      · simp [State.setWorker, tail]
      · simp [after]
    | cons next rest =>
      rw [tail] at after
      refine .held (w := w) (show _ = some next from ?_) ?_ ?_ notQueued notParked
      · simpa [State.setWorker] using congrArg List.head? tail
      · simpa using after
      · intro w' job' held
        by_contra own
        rw [State.setWorker_workers, Function.update_of_ne own] at held
        exact own (only w' job' held)
  · refine (placed r).of_other hand same ?_ (Function.update_of_ne same ..) (fun _ _ => Iff.rfl) rfl rfl
    rw [after]
    cases (s.api r').jobs.tail.head? <;> simp [Ne.symm same]

theorem State.wakeRank_api (s : State ρ κ ω) (woken : Option κ) (other : ρ) :
    (s.wakeRank woken other).api = Function.update s.api other ((s.api other).advanceToNextJob woken).2 := rfl

theorem State.mem_wakeRank_self {woken : Option κ} (notQueued : ¬ s.Queued r) {q : Nat} {job : ThreadJob κ} :
    some (r, job) ∈ (s.wakeRank woken r).queue q ↔
      (s.api r).queueIdx = q ∧ (s.api r).jobs.tail.head? = some job := by
  have queue := @State.mem_insertRank_self _ _ _ _ _ _ (s.setApi r ((s.api r).advanceToNextJob woken).2) r
    (s.api r).jobs.tail.head? notQueued q job
  rw [State.setApi_api, Function.update_self, RankApi.advanceToNextJob_queueIdx] at queue
  rw [State.wakeRank, RankApi.advanceToNextJob_fst]
  exact queue

theorem State.releaseMaster_api (s : State ρ κ ω) (woken : Option κ) (m : Nat) (r : ρ) :
    ((s.releaseMaster woken m).api r).jobs = (s.api r).jobs ∧
      ((s.releaseMaster woken m).api r).queueIdx = (s.api r).queueIdx := by
  by_cases owner : r = (s.masters m).slotOwner
  · subst owner
    simp [State.releaseMaster, State.setMaster, RankApi.releaseJobSlotUnlocked]
  · simp [State.releaseMaster, State.setMaster, owner]

theorem Move.placed_worker (move : Move s (.worker w) t) (placed : ∀ r, s.Placed r) (once : ∀ q, (s.queue q).Nodup)
    (gathered : ∀ w r job status m others, s.workers w = .waking r job status m others →
      ∀ other ∈ others, s.parked other = true) (r : ρ) : t.Placed r := by
  cases move with
  | @takes _ r' job rest here queue =>
    have first : some (r', job) ∈ s.queue (s.workerQueue w) := by rw [queue]; exact List.mem_cons_self
    obtain ⟨idx, head, only, notHeld, notParked⟩ := (placed r').of_queue first
    have nodup := once (s.workerQueue w)
    rw [queue, List.nodup_cons] at nodup
    by_cases same : r = r'
    · subst same
      refine .held (w := w) head (by simp [WorkerPc.hand?]) ?_ ?_ notParked
      · intro w' job' held
        by_contra own
        rw [State.setWorker_workers, Function.update_of_ne own] at held
        exact notHeld ⟨w', job', held⟩
      · rintro ⟨q, job', member⟩
        by_cases own : q = s.workerQueue w
        · subst own
          have later : some (r, job') ∈ rest := by simpa [State.setWorker] using member
          obtain ⟨_, rfl⟩ := only _ job' (by rw [queue]; exact .tail _ later)
          exact nodup.1 later
        · have old : some (r, job') ∈ s.queue q := by simpa [State.setWorker, own] using member
          exact own (only q job' old).1
    · have notHand : ∀ job, (s.workers w).hand? ≠ some (r, job) := by simp [here, WorkerPc.hand?]
      refine SamePlace.placed (s := s)
        (.of_other (u := s.setQueue _ rest) rfl rfl (fun q job' => ?_) rfl rfl notHand ?_) (placed r)
      · by_cases own : q = s.workerQueue w
        · subst own
          simp [queue, same]
        · simp [own]
      · simp [WorkerPc.hand?, Ne.symm same]
  | @detaches _ r' job m woken here =>
    exact State.Placed.of_pop placed (by rw [here]; rfl) (by simp [WorkerPc.hand?]) r
  | @advances _ r' job woken here =>
    refine State.Placed.of_pop placed (by rw [here]; rfl) ?_ r
    rw [RankApi.advanceToNextJob_fst]
    cases (s.api r').jobs.tail.head? <;> rfl
  | @inserts _ r' next m here =>
    cases next with
    | none =>
      exact SamePlace.placed (s := s)
        (.of_hand (u := s) rfl rfl (fun _ _ => Iff.rfl) rfl rfl (by rw [here]; rfl)) (placed r)
    | some job =>
      have hand : (s.workers w).hand? = some (r', job) := by rw [here]; rfl
      obtain ⟨head, only, notQueued, notParked⟩ := (placed r').of_hand hand
      by_cases same : r = r'
      · subst same
        refine .queued head (State.mem_insertRank_self notQueued |>.mpr ⟨rfl, rfl⟩) (fun q job' member => ?_)
          (State.not_held rfl only (by simp [WorkerPc.hand?])) notParked
        obtain ⟨idx, next⟩ := (State.mem_insertRank_self notQueued).mp member
        exact ⟨idx, (Option.some.inj next).symm⟩
      · exact (placed r).of_other hand same (by simp [WorkerPc.hand?]) rfl
          (fun q job' => State.mem_insertRank same (some job) q job') rfl rfl
  | @leaves _ here =>
    exact (SamePlace.of_hand rfl rfl (fun _ _ => Iff.rfl) rfl rfl (by rw [here]; rfl)).placed (placed r)
  | @leavesMaster _ m woken here =>
    have same := s.releaseMaster_api woken m r
    exact (SamePlace.of_hand (congrArg List.head? same.1) same.2 (fun _ _ => Iff.rfl) rfl rfl
      (by rw [here]; rfl)).placed (placed r)
  | @releases _ r' job status m woken here =>
    have same := s.releaseMaster_api woken m r
    exact (SamePlace.of_hand (congrArg List.head? same.1) same.2 (fun _ _ => Iff.rfl) rfl rfl
      (by rw [here]; rfl)).placed (placed r)
  | @wakesRank _ r' job status m other others woken here =>
    have parked := gathered w r' job status m _ here other List.mem_cons_self
    obtain ⟨notQueued, notHeld⟩ := (placed other).of_parked parked
    have hands (w' : ω) : (Function.update s.workers w (.waking r' job status m others) w').hand? =
        (s.workers w').hand? := by
      by_cases own : w' = w
      · subst own
        rw [Function.update_self, here]
        rfl
      · rw [Function.update_of_ne own]
    by_cases same : r = other
    · subst same
      have notHeld' : ¬ ∃ w' job', (Function.update s.workers w (.waking r' job status m others) w').hand? =
          some (r, job') := by
        simp only [hands]
        exact notHeld
      cases tail : (s.api r).jobs.tail with
      | nil =>
        refine .empty ?_ (fun ⟨q, job', member⟩ => ?_) notHeld' (Function.update_self ..)
        · simp [State.setWorker, State.wakeRank_api, tail]
        · simpa [tail] using (State.mem_wakeRank_self notQueued).mp member
      | cons next rest =>
        have head : (s.api r).jobs.tail.head? = some next := by rw [tail]; rfl
        have idx : ((s.wakeRank woken r).api r).queueIdx = (s.api r).queueIdx := by simp [State.wakeRank_api]
        refine .queued (show _ = some next from ?_) ?_ (fun q job' member => ?_) notHeld' (Function.update_self ..)
        · simpa [State.setWorker, State.wakeRank_api] using head
        · exact (State.mem_wakeRank_self notQueued).mpr ⟨idx.symm, head⟩
        · obtain ⟨here, next⟩ := (State.mem_wakeRank_self notQueued).mp member
          exact ⟨idx.trans here, Option.some.inj (next.symm.trans head)⟩
    · refine SamePlace.placed (s := s)
        ⟨?_, ?_, fun q job' => ?_, fun w' job' => ?_, Function.update_of_ne same ..⟩ (placed r)
      · exact congrArg (fun api : RankApi κ => api.jobs.head?) (Function.update_of_ne same ..)
      · exact congrArg RankApi.queueIdx (Function.update_of_ne same ..)
      · exact State.mem_insertRank same _ q job'
      · rw [State.setWorker_workers, ← hands w']
        rfl
  | @updatesStatus _ r' job status woken here =>
    have hand : (s.workers w).hand? = some (r', job) := by rw [here]; rfl
    obtain ⟨_, only, notQueued, notParked⟩ := (placed r').of_hand hand
    obtain ⟨syncs, dropped⟩ := s.updateStatus_eq r' status woken
    rw [dropped]
    by_cases same : r = r'
    · subst same
      exact .empty (by simp [State.setWorker, RankApi.drained]) notQueued
        (State.not_held rfl only (by simp [WorkerPc.hand?])) notParked
    · exact (placed r).of_other hand same (by simp [WorkerPc.hand?]) (Function.update_of_ne same ..)
        (fun _ _ => Iff.rfl) rfl rfl

/-- A client that adds no jobs touches nothing but slots, waiters and its own call. -/
structure ClientFrame (s t : State ρ κ ω) : Prop where
  api : ∀ r, (s.api r).SameJobs (t.api r)
  queue : t.queue = s.queue
  workers : t.workers = s.workers
  workerQueue : t.workerQueue = s.workerQueue
  parked : t.parked = s.parked

theorem ClientFrame.samePlace (frame : ClientFrame s t) (r : ρ) : SamePlace s t r where
  head := congrArg List.head? (frame.api r).jobs
  queueIdx := (frame.api r).queueIdx
  queue q job := by rw [frame.queue]
  hand w job := by rw [frame.workers]
  parked := congrFun frame.parked r

theorem ClientFrame.of_api {r : ρ} {api : RankApi κ} {c : κ} {pc : ClientPc ρ κ} (same : (s.api r).SameJobs api) :
    ClientFrame s ((s.setApi r api).setClient c pc) := by
  refine ⟨fun r' => ?_, rfl, rfl, rfl, rfl⟩
  by_cases here : r' = r
  · subst here
    simpa [State.setClient] using same
  · simpa [State.setClient, here] using .refl (s.api r')

theorem RankApi.SameJobs.of_getJobs {api api' : RankApi κ} {need : Nat} {hand : List Nat} {result : GetResult}
    (taken : api.getJobs need hand = (result, api')) : api.SameJobs api' ∧ api'.waiters = api.waiters := by
  have same := RankApi.getJobs_same need hand api
  rw [taken] at same
  exact ⟨same.1, same.2.1⟩

theorem Move.begin_frame {c : κ} {call : Call ρ} (move : Move s (.begin c call) t) :
    ClientFrame s t ∧ t.masters = s.masters ∧ t.nextMaster = s.nextMaster := by
  obtain ⟨idle⟩ := move
  split_ifs <;> exact ⟨⟨fun r => .refl _, rfl, rfl, rfl, rfl⟩, rfl, rfl⟩

theorem Move.client_frame {c : κ} (move : Move s (.client c) t) :
    ClientFrame s t ∨ ∃ call r jobs rest, s.clients c = .adding call ((r, jobs) :: rest) ∧
      t = (s.addJobs r jobs).setClient c (.adding call rest) := by
  cases move with
  | gets _ _ taken | fails _ _ taken => exact .inl (.of_api (RankApi.SameJobs.of_getJobs taken).1)
  | sleeps _ _ taken =>
    have same := (RankApi.SameJobs.of_getJobs taken).1
    exact .inl (.of_api ⟨same.nrJobs, same.queueIdx, same.jobs⟩)
  | wakes | resets => exact .inl (.of_api ⟨rfl, rfl, rfl⟩)
  | ungets => exact .inl (.of_api (by rw [RankApi.ungetJobs_eq]; exact ⟨rfl, rfl, rfl⟩))
  | unget | choosesMaster | setsJobs | setsMaster | added | returns | reset =>
    exact .inl ⟨fun r => .refl _, rfl, rfl, rfl, rfl⟩
  | adds here => exact .inr ⟨_, _, _, _, here, rfl⟩

/-- What `dpu_thread_job_add_jobs` does for a rank. -/
theorem State.addJobs_eq (s : State ρ κ ω) (r : ρ) (jobs : List (ThreadJob κ)) :
    s.addJobs r jobs = { s with
      api := Function.update s.api r { s.api r with jobs := (s.api r).jobs ++ jobs }
      queue := if (s.api r).jobs = [] then (s.insertRank r jobs.head?).queue else s.queue } := by
  unfold State.addJobs
  split_ifs <;> rfl

theorem State.Placed.addJobs {c : κ} {pc : ClientPc ρ κ} {r' : ρ} {jobs : List (ThreadJob κ)} (some : jobs ≠ [])
    (placed : ∀ r, s.Placed r) (r : ρ) : ((s.addJobs r' jobs).setClient c pc).Placed r := by
  rw [State.addJobs_eq]
  by_cases same : r = r'
  · subst same
    by_cases empty : (s.api r).jobs = []
    · obtain ⟨job, rest, rfl⟩ := List.exists_cons_of_ne_nil some
      obtain ⟨notQueued, notHeld, notParked⟩ := (placed r).of_empty empty
      refine .queued (show _ = Option.some job by simp [State.setClient, empty]) ?_
        (fun q job' member => ?_) notHeld notParked
      · simp [State.setClient, empty, State.insertRank_queue]
      · simp only [State.setClient, if_pos empty] at member
        obtain ⟨idx, next⟩ := (State.mem_insertRank_self notQueued).mp member
        refine ⟨?_, (Option.some.inj next).symm⟩
        simpa [State.setClient] using idx
    · refine SamePlace.placed (s := s) ⟨?_, ?_, fun q job => ?_, fun _ _ => Iff.rfl, rfl⟩ (placed r)
      · simp [State.setClient, List.head?_append_of_ne_nil _ empty]
      · simp [State.setClient]
      · simp [State.setClient, if_neg empty]
  · refine SamePlace.placed (s := s) ⟨?_, ?_, fun q job => ?_, fun _ _ => Iff.rfl, rfl⟩ (placed r)
    · simp [State.setClient, same]
    · simp [State.setClient, same]
    · simp only [State.setClient]
      split_ifs
      · exact State.mem_insertRank same _ q job
      · rfl

theorem State.insertRank_nodup {next : Option (ThreadJob κ)} (once : ∀ q, (s.queue q).Nodup)
    (alive : ∀ q, none ∉ s.queue q) (notQueued : ¬ s.Queued r) (q : Nat) :
    ((s.insertRank r next).queue q).Nodup := by
  rw [State.insertRank_queue]
  by_cases own : q = (s.api r).queueIdx
  · subst own
    rw [Function.update_self, List.nodup_append]
    refine ⟨once _, List.nodup_singleton _, fun entry member new last => ?_⟩
    obtain rfl := List.mem_singleton.mp last
    rintro rfl
    cases next with
    | none => exact alive _ member
    | some job => exact notQueued ⟨_, job, member⟩
  · rw [Function.update_of_ne own]
    exact once q

/-- A rank is queued at most once. -/
theorem Move.once {a : Action ρ κ ω} (move : Move s a t) (placed : ∀ r, s.Placed r) (alive : ∀ q, none ∉ s.queue q)
    (gathered : ∀ w r job status m others, s.workers w = .waking r job status m others →
      ∀ other ∈ others, s.parked other = true)
    (once : ∀ q, (s.queue q).Nodup) (q : Nat) : (t.queue q).Nodup := by
  cases a with
  | begin c call => exact move.begin_frame.1.queue ▸ once q
  | client c =>
    rcases move.client_frame with frame | ⟨call, r, jobs, rest, here, rfl⟩
    · exact frame.queue ▸ once q
    · rw [State.addJobs_eq]
      simp only [State.setClient]
      split_ifs with empty
      · exact State.insertRank_nodup once alive ((placed r).of_empty empty).1 q
      · exact once q
  | compute w status => cases move <;> exact once q
  | worker w =>
    cases move with
    | @takes _ r job rest here queue =>
      by_cases own : q = s.workerQueue w
      · subst own
        have nodup := once (s.workerQueue w)
        rw [queue] at nodup
        simpa [State.setWorker] using (List.nodup_cons.mp nodup).2
      · simpa [State.setWorker, own] using once q
    | @inserts _ r next m here =>
      cases next with
      | none => exact once q
      | some job =>
        have hand : (s.workers w).hand? = some (r, job) := by rw [here]; rfl
        exact State.insertRank_nodup once alive ((placed r).of_hand hand).2.2.1 q
    | @wakesRank _ r job status m other others woken here =>
      have parked := gathered w r job status m _ here other List.mem_cons_self
      exact State.insertRank_nodup (s := s.setApi other _) once alive ((placed other).of_parked parked).1 q
    | @updatesStatus _ r job status woken here =>
      obtain ⟨syncs, dropped⟩ := s.updateStatus_eq r status woken
      rw [dropped]
      exact once q
    | detaches | leaves | leavesMaster | releases | advances => exact once q

end

end Upmem.Jobs
