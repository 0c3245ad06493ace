import Upmem.JobCallbacks

set_option linter.unusedSectionVars false

namespace Upmem.Jobs
open Transitions
variable {ρ κ ω : Type} [DecidableEq ρ] [DecidableEq κ] [DecidableEq ω]

/-- The callback of a master job may still be called, and its slot is not freed. -/
def Master.InProgress (master : Master ρ) : Prop := master.freed = false ∧ master.abandoned = false

/-- The job of a callback for a rank waits in the FIFO or is still to be added. -/
def State.Awaited (s : State ρ κ ω) (m : Nat) (r : ρ) : Prop :=
  m ∈ mastersOf (s.api r).jobs ∨ ∃ c, ∃ entry ∈ (s.clients c).toAdd, entry.1 = r ∧ m ∈ mastersOf entry.2

/-- A callback in progress has a job to come from every rank that is absent
and, when all have come, a worker that frees the slot of its master job. -/
structure State.Lasting (s : State ρ κ ω) : Prop where
  arrived : ∀ r m, s.Computed r → s.HeadOf m r → r ∉ (s.masters m).sync.absent
  pending : ∀ m < s.nextMaster, (s.masters m).InProgress → ∀ r ∈ (s.masters m).sync.absent, s.Awaited m r
  called : ∀ m < s.nextMaster, (s.masters m).InProgress → (s.masters m).sync.absent = [] →
    ∃ w, (s.workers w).master? = some m

section
variable {s t u : State ρ κ ω} {r : ρ} {w : ω} {c : κ} {pc : WorkerPc ρ κ} {a : Action ρ κ ω}

theorem State.Created.lasting (created : s.Created) : s.Lasting where
  arrived r m computed := by
    rcases computed with parked | ⟨w, done⟩
    · simp [created.parked r] at parked
    · simp [created.workers w, WorkerPc.computed?] at done
  pending m below := by simp [created.nextMaster] at below
  called m below := by simp [created.nextMaster] at below

/-- The callbacks of a state go on from those of another one. -/
theorem State.Lasting.mono (lasting : s.Lasting) (next : t.nextMaster = s.nextMaster)
    (arrived : ∀ r m, t.Computed r → t.HeadOf m r →
      s.Computed r ∧ s.HeadOf m r ∧ (t.masters m).sync.absent ⊆ (s.masters m).sync.absent ∨
        r ∉ (t.masters m).sync.absent)
    (old : ∀ m, (t.masters m).InProgress →
      (s.masters m).InProgress ∧ (t.masters m).sync.absent ⊆ (s.masters m).sync.absent)
    (awaited : ∀ m, (t.masters m).InProgress → ∀ r ∈ (t.masters m).sync.absent, s.Awaited m r → t.Awaited m r)
    (called : ∀ m < s.nextMaster, (t.masters m).InProgress → (t.masters m).sync.absent = [] →
      ((s.masters m).sync.absent = [] → ∃ w, (s.workers w).master? = some m) → ∃ w,
        (t.workers w).master? = some m) :
    t.Lasting := by
  constructor
  case arrived =>
    intro r m computed head
    rcases arrived r m computed head with ⟨before, at_head, fewer⟩ | gone
    · exact fun member => lasting.arrived r m before at_head (fewer member)
    · exact gone
  case pending =>
    intro m below progress r member
    obtain ⟨before, fewer⟩ := old m progress
    exact awaited m progress r member (lasting.pending m (next ▸ below) before r (fewer member))
  case called =>
    intro m below progress all
    exact called m (next ▸ below) progress all (lasting.called m (next ▸ below) (old m progress).1)

/-- A client adds jobs from its own list only, those that it has just chosen apart. -/
theorem Move.toAdd_before (move : Move s (.client c) t) :
    (s.clients c).toAdd = [] ∨ ∃ call r jobs rest, s.clients c = .adding call ((r, jobs) :: rest) ∧
      t = (s.addJobs r jobs).setClient c (.adding call rest) := by
  cases move with
  | adds here => exact .inr ⟨_, _, _, _, here, rfl⟩
  | gets here | sleeps here | wakes here | fails here | ungets here | unget here | choosesMaster here
      | setsJobs here
    | setsMaster here | added here | returns here | resets here | reset here => exact .inl (by rw [here]; rfl)

/-- The jobs of a call with a master job are all jobs of its callback. -/
theorem Call.mem_mastersOf_jobsOf {call : Call ρ} (needs : call.needsMaster = true) {slots : List Nat}
    (some : slots ≠ [])
    (m : Nat) : m ∈ mastersOf (call.jobsOf c (.some m) slots) := by
  unfold Call.needsMaster at needs
  cases slots with
  | nil => exact absurd rfl some
  | cons slot slots =>
    refine mem_mastersOf.mpr ⟨_, List.mem_cons_self, ?_⟩
    unfold Call.firstType
    split at needs
    next flags kind => simp [kind]
    next => cases needs

/-- Only a client that makes a master job changes their number, and it has a
job of the callback to add for each rank. -/
theorem Move.toAdd_master (move : Move s (.client c) t) (ok : (s.clients c).Ok)
    (next : t.nextMaster ≠ s.nextMaster) :
    ∀ entry ∈ (t.clients c).toAdd, s.nextMaster ∈ mastersOf entry.2 := by
  cases move with
  | adds here =>
    refine absurd ?_ next
    rw [State.addJobs_eq]
    rfl
  | @setsMaster _ g owner slot got here todo chosen last =>
    rw [here] at ok
    intro entry member
    simp only [Function.update_self, State.setClient_clients] at member
    obtain ⟨⟨rank, slots⟩, inside, rfl⟩ := List.mem_map.mp member
    have needs := ok.master (by rw [chosen]; exact Option.some_ne_none owner)
    exact Call.mem_mastersOf_jobsOf needs
      (ok.filled (rank, slots) (by rw [last]; exact List.mem_append_left _ inside)) _
  | gets | sleeps | wakes | fails | ungets | unget | choosesMaster | setsJobs | added | returns | resets | reset =>
    exact absurd rfl next

/-- A client does nothing to the callbacks. -/
theorem State.Lasting.quiet (lasting : s.Lasting) (frame : ClientFrame s t)
    (masters : t.masters = s.masters) (next : t.nextMaster = s.nextMaster)
    (others : ∀ c' ≠ c, t.clients c' = s.clients c')
    (before : (s.clients c).toAdd = []) : t.Lasting := by
  refine lasting.mono next ?_ ?_ ?_ ?_
  all_goals simp only [masters, frame.workers, frame.headOf, frame.computed]
  · exact fun r m computed head => .inl ⟨computed, head, fun _ => id⟩
  · exact fun m progress => ⟨progress, fun _ => id⟩
  · intro m _ r _ awaited
    rcases awaited with queued | ⟨c', entry, member, at_r⟩
    · exact .inl ((frame.api r).jobs ▸ queued)
    · have other : c' ≠ c := by
        rintro rfl
        simp [before] at member
      exact .inr ⟨c', entry, others c' other ▸ member, at_r⟩
  · exact fun m _ _ all held => held all

theorem Call.usedRanks_ne_nil (call : Call ρ) : call.usedRanks ≠ [] := by
  have some := List.length_pos_iff.mpr call.some
  refine List.length_pos_iff.mp ?_
  unfold Call.usedRanks
  split
  · split_ifs
    · rw [List.length_take]
      omega
    · exact some
  · exact some

/-- A client makes a master job. -/
theorem State.Lasting.setsMaster (lasting : s.Lasting) (members : s.Members) {call : Call ρ}
    {got : List (ρ × List Nat)} {master : Master ρ} (frame : ClientFrame s t)
    (masters : t.masters = Function.update s.masters s.nextMaster master)
    (fresh : master.sync = .init call.usedRanks) (next : t.nextMaster = s.nextMaster + 1)
    (others : ∀ c' ≠ c, t.clients c' = s.clients c') (own : got.map Prod.fst = call.usedRanks)
    (toAdd : (t.clients c).toAdd = got.map (fun (rank, slots) => (rank, call.jobsOf c (some s.nextMaster) slots)))
    (before : (s.clients c).toAdd = []) (all : ∀ entry ∈ (t.clients c).toAdd, s.nextMaster ∈ mastersOf entry.2) :
    t.Lasting := by
  have old {m : Nat} (below : m < s.nextMaster) : t.masters m = s.masters m := by
    rw [masters, Function.update_of_ne below.ne]
  have last : t.masters s.nextMaster = master := by rw [masters, Function.update_self]
  constructor
  case arrived =>
    intro r m computed head
    rw [frame.computed] at computed
    rw [frame.headOf] at head
    rw [old (members.known r m head.mem)]
    exact lasting.arrived r m computed head
  case pending =>
    intro m below progress r member
    rcases Nat.lt_succ_iff_lt_or_eq.mp (next ▸ below) with earlier | rfl
    · rw [old earlier] at progress member
      rcases lasting.pending m earlier progress r member with queued | ⟨c', entry, added, at_r⟩
      · exact .inl ((frame.api r).jobs ▸ queued)
      · have other : c' ≠ c := by
          rintro rfl
          simp [before] at added
        exact .inr ⟨c', entry, others c' other ▸ added, at_r⟩
    · rw [last, fresh] at member
      have member : r ∈ call.usedRanks := member
      rw [← own] at member
      obtain ⟨⟨rank, slots⟩, inside, rfl⟩ := List.mem_map.mp member
      have added : (rank, call.jobsOf c (some s.nextMaster) slots) ∈ (t.clients c).toAdd :=
        toAdd ▸ List.mem_map.mpr ⟨(rank, slots), inside, rfl⟩
      exact .inr ⟨c, _, added, rfl, all _ added⟩
  case called =>
    intro m below progress none
    rcases Nat.lt_succ_iff_lt_or_eq.mp (next ▸ below) with earlier | rfl
    · rw [old earlier] at progress none
      rw [frame.workers]
      exact lasting.called m earlier progress none
    · rw [last, fresh] at none
      exact absurd none call.usedRanks_ne_nil

/-- A client adds the jobs of a rank. -/
theorem State.Lasting.adds (lasting : s.Lasting) (placed : ∀ r, s.Placed r) {call : Call ρ}
    {jobs : List (ThreadJob κ)}
    {rest : List (ρ × List (ThreadJob κ))} (here : s.clients c = .adding call ((r, jobs) :: rest)) :
    ((s.addJobs r jobs).setClient c (.adding call rest)).Lasting := by
  have frame : s.addJobs r jobs = _ := s.addJobs_eq r jobs
  have queue (r' : ρ) : (((s.addJobs r jobs).setClient c (.adding call rest)).api r').jobs =
      (s.api r').jobs ++ if r' = r then jobs else [] := s.addJobs_jobs r jobs r'
  refine lasting.mono (by rw [frame]; rfl) ?_ (fun m => ?_) ?_ ?_
  · intro r' m computed head
    have before : s.Computed r' := by
      rw [frame] at computed
      exact computed
    refine .inl ⟨before, ?_, by rw [frame]; exact fun _ => id⟩
    obtain ⟨job, first, type⟩ := head
    refine ⟨job, ?_, type⟩
    rw [queue, List.head?_append] at first
    cases at_head : (s.api r').jobs.head? with
    | some job' => rwa [at_head, Option.some_or] at first
    | none =>
      -- the head of an empty FIFO is not computed
      obtain ⟨_, notHeld, notParked⟩ := (placed r').of_empty (List.head?_eq_none_iff.mp at_head)
      rcases before with at_park | ⟨w, done⟩
      · exact absurd (notParked.symm.trans at_park) Bool.false_ne_true
      · refine absurd ⟨w, ?_⟩ notHeld
        cases at_w : s.workers w <;> simp_all [WorkerPc.computed?, WorkerPc.hand?]
  · rw [frame]
    exact fun progress => ⟨progress, fun _ => id⟩
  · intro m _ r' _ awaited
    rcases awaited with queued | ⟨c', entry, member, at_r⟩
    · exact .inl (by rw [queue, mastersOf_append]; exact List.mem_append_left _ queued)
    · by_cases mine : c' = c
      · subst mine
        rw [here] at member
        rcases List.mem_cons.mp member with rfl | later
        · refine .inl ?_
          rw [queue, mastersOf_append, ← at_r.1, if_pos rfl]
          exact List.mem_append_right _ at_r.2
        · exact .inr ⟨c', entry, by rw [State.setClient_clients, Function.update_self]; exact later, at_r⟩
      · refine .inr ⟨c', entry, ?_, at_r⟩
        rw [State.setClient_clients, State.addJobs_clients, Function.update_of_ne mine]
        exact member
  · rw [frame]
    exact fun m _ _ all held => held all

theorem WorkerPc.hand_of_computed {pc : WorkerPc ρ κ} (computed : pc.computed? = some r) :
    ∃ job, pc.hand? = some (r, job) := by
  cases pc <;> simp_all [WorkerPc.computed?, WorkerPc.hand?]

/-- A rank arrives at a callback. -/
theorem State.Lasting.arrive (lasting : s.Lasting) (members : s.Members) (placed : ∀ r, s.Placed r)
    {job : ThreadJob κ} {m : Nat} (here : s.workers w = .run r job) (type : job.type = .callbackOf m)
    (api : t.api = s.api)
    (masters : t.masters = Function.update s.masters m ((s.masters m).arrive r)) (clients : t.clients = s.clients)
    (next : t.nextMaster = s.nextMaster) (workers : t.workers = Function.update s.workers w pc)
    (parked : ∀ r', t.parked r' = true → s.parked r' = true ∨ r' = r) (own : ∀ r', pc.computed? = some r' → r' = r)
    (last : (s.masters m).sync.nrRanks = 1 → pc.master? = some m) : t.Lasting := by
  obtain ⟨head, _, below, inside⟩ := members.mem_absent placed here type
  obtain ⟨length, nodup, _⟩ := members.counter m below
  have mine : t.masters m = (s.masters m).arrive r := by rw [masters, Function.update_self]
  have other {m' : Nat} (different : m' ≠ m) : t.masters m' = s.masters m' := by
    rw [masters, Function.update_of_ne different]
  have fewer (m' : Nat) : (t.masters m').sync.absent ⊆ (s.masters m').sync.absent := by
    by_cases at_m : m' = m
    · subst at_m
      rw [mine]
      exact List.erase_subset
    · rw [other at_m]
      exact fun _ => id
  have headOf (m' : Nat) (r' : ρ) : t.HeadOf m' r' ↔ s.HeadOf m' r' := by rw [State.HeadOf, api, ← State.HeadOf]
  have computed {r' : ρ} (after : t.Computed r') : s.Computed r' ∨ r' = r := by
    rcases after with at_park | ⟨w', done⟩
    · exact (parked r' at_park).imp_left .inl
    · rw [workers] at done
      by_cases at_w : w' = w
      · subst at_w
        rw [Function.update_self] at done
        exact .inr (own r' done)
      · rw [Function.update_of_ne at_w] at done
        exact .inl (.inr ⟨w', done⟩)
  refine lasting.mono next (fun r' m' after at_head => ?_) (fun m' progress => ⟨?_, fewer m'⟩) ?_ ?_
  · rw [headOf] at at_head
    rcases computed after with before | rfl
    · exact .inl ⟨before, at_head, fewer m'⟩
    · obtain rfl := at_head.unique head
      rw [mine]
      exact .inr nodup.not_mem_erase
  · by_cases at_m : m' = m
    · subst at_m
      rwa [mine] at progress
    · rwa [other at_m] at progress
  · intro m' _ r' _ awaited
    unfold State.Awaited at awaited ⊢
    rwa [api, clients]
  · intro m' _ _ all held
    by_cases at_m : m' = m
    · subst at_m
      refine ⟨w, ?_⟩
      rw [workers, Function.update_self]
      refine last (length.trans ?_)
      have erased := List.length_erase_of_mem inside
      have positive := List.length_pos_of_mem inside
      rw [mine] at all
      have none : (s.masters m').sync.absent.erase r = [] := all
      rw [none, List.length_nil] at erased
      omega
    · rw [other at_m] at all
      obtain ⟨w', holds⟩ := held all
      refine ⟨w', ?_⟩
      rwa [workers, Function.update_of_ne]
      rintro rfl
      rw [here] at holds
      cases holds

theorem Move.lasting_compute {status : DpuError} (move : Move s (.compute w status) t) (inv : s.Inv)
    (lasting : s.Lasting) :
    t.Lasting := by
  have quiet {u : State ρ κ ω} {pc : WorkerPc ρ κ} {r : ρ} {job : ThreadJob κ} (here : s.workers w = .run r job)
      (api : u.api = s.api) (clients : u.clients = s.clients) (workers : u.workers = s.workers)
      (parked : u.parked = s.parked) (masters : u.masters = s.masters) (next : u.nextMaster = s.nextMaster)
      (own : ∀ r', pc.computed? = some r' → r' = r) (unlike : ∀ m, job.type ≠ .callbackOf m) :
      (u.setWorker w pc).Lasting := by
    have head := ((inv.placed r).of_hand (show (s.workers w).hand? = some (r, job) by rw [here]; rfl)).1
    refine lasting.mono next (fun r' m computed after => ?_) (fun m => ?_) ?_ ?_
    · have at_head : s.HeadOf m r' := by
        rw [State.HeadOf] at after ⊢
        exact api ▸ after
      refine .inl ⟨?_, at_head, by change (u.masters m).sync.absent ⊆ _; rw [masters]; exact fun _ => id⟩
      rcases computed with at_park | ⟨w', done⟩
      · exact .inl (parked ▸ at_park)
      · rw [State.setWorker_workers, workers] at done
        by_cases at_w : w' = w
        · subst at_w
          rw [Function.update_self] at done
          obtain rfl := own r' done
          obtain ⟨job', first, type⟩ := at_head
          obtain rfl := Option.some.inj (first.symm.trans head)
          exact absurd type (unlike m)
        · rw [Function.update_of_ne at_w] at done
          exact .inr ⟨w', done⟩
    · change (u.masters m).InProgress → _ ∧ (u.masters m).sync.absent ⊆ _
      rw [masters]
      exact fun progress => ⟨progress, fun _ => id⟩
    · intro m _ r' _ awaited
      change _ ∈ mastersOf (u.api r').jobs ∨ ∃ c, ∃ entry ∈ (u.clients c).toAdd, _
      rwa [api, clients]
    · intro m _ _ all held
      change (u.masters m).sync.absent = [] at all
      rw [masters] at all
      obtain ⟨w', holds⟩ := held all
      refine ⟨w', ?_⟩
      rw [State.setWorker_workers, workers, Function.update_of_ne]
      · exact holds
      · rintro rfl
        rw [here] at holds
        cases holds
  have arrive := @State.Lasting.arrive _ _ _ _ _ _ s t
  cases move with
  | works _ here type | syncs here type | calls _ here type | callsNonblocking _ here type =>
    exact quiet here rfl rfl rfl rfl rfl rfl (by simp [WorkerPc.computed?]) (by simp [type])
  | arrives here type more =>
    exact arrive lasting inv.members inv.placed here type rfl rfl rfl rfl rfl (fun _ => .inl)
      (by simp [WorkerPc.computed?]) (absurd · more)
  | @parks _ r job m here type more =>
    refine arrive lasting inv.members inv.placed here type rfl rfl rfl rfl rfl (fun r' at_park => ?_)
      (by simp [WorkerPc.computed?]) (absurd · more)
    by_cases same : r' = r
    · exact .inr same
    · exact .inl ((Function.update_of_ne same ..).symm.trans at_park)
  | callsLastNonblocking _ here type one =>
    exact arrive lasting inv.members inv.placed here type rfl rfl rfl rfl rfl (fun _ => .inl)
      (by simp [WorkerPc.computed?]) fun _ => rfl
  | callsLast _ here type one =>
    exact arrive lasting inv.members inv.placed here type rfl rfl rfl rfl rfl (fun _ => .inl)
      (by simp [WorkerPc.computed?]) fun _ => rfl

/-- A rank that is computed after a worker has gone on was so before. -/
theorem State.Computed.before (after : (u.setWorker w pc).Computed r) (workers : u.workers = s.workers)
    (parked : u.parked r = true → s.parked r = true)
    (own : pc.computed? = some r → (s.workers w).computed? = some r) :
    s.Computed r := by
  rcases after with at_park | ⟨w', done⟩
  · exact .inl (parked at_park)
  · rw [State.setWorker_workers, workers] at done
    by_cases at_w : w' = w
    · subst at_w
      rw [Function.update_self] at done
      exact .inr ⟨w', own done⟩
    · rw [Function.update_of_ne at_w] at done
      exact .inr ⟨w', done⟩

/-- A rank whose head went to no worker is not computed. -/
theorem State.not_computed (workers : u.workers = s.workers) (parked : u.parked r = false)
    (only : ∀ w' job', (s.workers w').hand? = some (r, job') → w' = w) (after : pc.computed? ≠ some r) :
    ¬ (u.setWorker w pc).Computed r := by
  rintro (at_park | ⟨w', done⟩)
  · exact Bool.false_ne_true (parked.symm.trans at_park)
  · rw [State.setWorker_workers, workers] at done
    by_cases same : w' = w
    · subst same
      rw [Function.update_self] at done
      exact after done
    · rw [Function.update_of_ne same] at done
      obtain ⟨job, hand⟩ := WorkerPc.hand_of_computed done
      exact same (only w' job hand)

/-- What a worker may do to the FIFO of a rank: nothing, take the computed head off, or drop its jobs. -/
inductive FifoCase (s t : State ρ κ ω) (r : ρ) : Prop
  | same : (t.api r).jobs = (s.api r).jobs → (t.Computed r → s.Computed r) → FifoCase s t r
  | pops : (t.api r).jobs = (s.api r).jobs.tail → s.Computed r → ¬ t.Computed r → FifoCase s t r
  | drops : (t.api r).jobs = [] → (∀ m ∈ mastersOf (s.api r).jobs, ¬ (t.masters m).InProgress) → FifoCase s t r

theorem State.Lasting.of_worker (lasting : s.Lasting) (frame : WorkerFrame s t) (fifo : ∀ r, FifoCase s t r)
    (masters : ∀ m, (t.masters m).sync = (s.masters m).sync ∧
      ((t.masters m).InProgress → (s.masters m).InProgress ∧
        ((s.workers w).master? = some m → pc.master? = some m)))
    (workers : t.workers = Function.update s.workers w pc) : t.Lasting := by
  refine lasting.mono frame.nextMaster (fun r m computed head => ?_)
    (fun m progress => ⟨((masters m).2 progress).1, ?_⟩) ?_ ?_
  · cases fifo r with
    | same jobs before =>
      refine .inl ⟨before computed, ?_, ?_⟩
      · rwa [State.HeadOf, jobs] at head
      · rw [(masters m).1]
        exact fun _ => id
    | pops _ _ notComputed => exact absurd computed notComputed
    | drops none =>
      obtain ⟨job, first, _⟩ := head
      simp [none] at first
  · rw [(masters m).1]
    exact fun _ => id
  · intro m progress r member awaited
    unfold State.Awaited at awaited ⊢
    rw [frame.clients]
    refine awaited.imp_left fun queued => ?_
    cases fifo r with
    | same jobs => rwa [jobs]
    | pops jobs computed =>
      rw [jobs]
      -- the job at the head has arrived
      rw [(masters m).1] at member
      cases all : (s.api r).jobs with
      | nil => simp [all, mastersOf] at queued
      | cons job rest =>
        rw [all] at queued
        obtain ⟨job', inside, type⟩ := mem_mastersOf.mp queued
        rcases List.mem_cons.mp inside with rfl | later
        · exact absurd member (lasting.arrived r m computed ⟨job', by rw [all]; rfl, type⟩)
        · exact mem_mastersOf.mpr ⟨job', later, type⟩
    | drops _ settled => exact absurd progress (settled m queued)
  · intro m _ progress all held
    rw [(masters m).1] at all
    obtain ⟨w', holds⟩ := held all
    refine ⟨w', ?_⟩
    rw [workers]
    by_cases at_w : w' = w
    · subst at_w
      rw [Function.update_self]
      exact ((masters m).2 progress).2 holds
    · rwa [Function.update_of_ne at_w]

theorem Move.lasting_worker (move : Move s (.worker w) t) (inv : s.Inv) (lasting : s.Lasting) : t.Lasting := by
  have frame := move.worker_frame
  have computed {u : State ρ κ ω} {pc : WorkerPc ρ κ} (workers : u.workers = s.workers)
    (parked : u.parked = s.parked)
      (own : ∀ r, pc.computed? = some r → (s.workers w).computed? = some r) (r : ρ)
      (after : (u.setWorker w pc).Computed r) : s.Computed r :=
    after.before workers (fun at_park => parked ▸ at_park) (own r)
  have plain {u : State ρ κ ω} {pc : WorkerPc ρ κ} (frame : WorkerFrame s (u.setWorker w pc))
      (jobs : ∀ r, (u.api r).jobs = (s.api r).jobs)
      (workers : u.workers = s.workers) (parked : u.parked = s.parked) (masters : u.masters = s.masters)
      (own : ∀ r, pc.computed? = some r → (s.workers w).computed? = some r)
      (holds : ∀ m, (s.workers w).master? = some m → pc.master? = some m) : (u.setWorker w pc).Lasting := by
    refine lasting.of_worker frame (fun r => .same (jobs r) (computed workers parked own r)) (fun m => ?_)
      (by rw [State.setWorker_workers, workers])
    change (u.masters m).sync = _ ∧ ((u.masters m).InProgress → _)
    rw [masters]
    exact ⟨rfl, fun progress => ⟨progress, holds m⟩⟩
  have pops {pc : WorkerPc ρ κ} {r' : ρ} {job : ThreadJob κ} {woken : Option κ}
      (hand : (s.workers w).hand? = some (r', job)) (done : (s.workers w).computed? = some r')
      (after : pc.computed? = none) (holds : ∀ m, (s.workers w).master? = some m → pc.master? = some m) :
      ((s.setApi r' ((s.api r').advanceToNextJob woken).2).setWorker w pc).Lasting := by
    obtain ⟨_, only, _, notParked⟩ := (inv.placed r').of_hand hand
    refine lasting.of_worker ⟨rfl, rfl, rfl⟩ (fun r => ?_) (fun m => ⟨rfl, fun progress => ⟨progress, holds m⟩⟩) rfl
    by_cases same : r = r'
    · subst same
      exact .pops (by simp [State.setWorker]) (.inr ⟨w, done⟩)
        (State.not_computed rfl notParked only (by simp [after]))
    · exact .same (by simp [State.setWorker, same]) (computed rfl rfl (by simp [after]) r)
  have releases {m : Nat} {woken : Option κ} {pc : WorkerPc ρ κ}
    (frame : WorkerFrame s ((s.releaseMaster woken m).setWorker w pc))
      (own : ∀ r, pc.computed? = some r → (s.workers w).computed? = some r)
      (holds : (s.workers w).master? = some m) :
      ((s.releaseMaster woken m).setWorker w pc).Lasting := by
    refine lasting.of_worker frame (fun r => .same (s.releaseMaster_api woken m r).1 (computed rfl rfl own r))
      (fun m' => ?_) rfl
    by_cases at_m : m' = m
    · subst at_m
      simp [State.releaseMaster, State.setWorker, Master.InProgress]
    · simp only [State.releaseMaster, State.setWorker, State.setMaster_masters, State.setApi,
        Function.update_of_ne at_m, true_and]
      exact fun progress => ⟨progress, fun other => absurd (Option.some.inj (other.symm.trans holds)) at_m⟩
  cases move with
  | takes here =>
    exact plain frame (fun _ => rfl) rfl rfl rfl (by simp [WorkerPc.computed?]) (by simp [here, WorkerPc.master?])
  | @inserts _ r next m here =>
    revert frame
    unfold State.insertRankList
    split_ifs <;> intro frame <;>
      exact plain frame (fun _ => rfl) rfl rfl rfl (by simp [WorkerPc.computed?]) (by simp [here, WorkerPc.master?])
  | leaves here =>
    exact plain frame (fun _ => rfl) rfl rfl rfl (by simp [WorkerPc.computed?]) (by simp [here, WorkerPc.master?])
  | detaches here => exact pops (by rw [here]; rfl) (by rw [here]; rfl) rfl (by simp [here, WorkerPc.master?])
  | @advances _ r job woken here =>
    refine pops (by rw [here]; rfl) (by rw [here]; rfl) ?_ (by simp [here, WorkerPc.master?])
    cases ((s.api r).advanceToNextJob woken).1 <;> rfl
  | leavesMaster here => exact releases frame (by simp [WorkerPc.computed?]) (by rw [here]; rfl)
  | releases here => exact releases frame (by simp [here, WorkerPc.computed?]) (by rw [here]; rfl)
  | @wakesRank _ r' job status m other others woken here =>
    have parked := ((inv.gathered.waking w r' job status m _ here).2 other List.mem_cons_self).1
    refine lasting.of_worker frame (fun r => ?_) (fun m' => ⟨rfl, fun progress => ⟨progress, ?_⟩⟩) rfl
    · by_cases same : r = other
      · subst same
        obtain ⟨_, notHeld⟩ := (inv.placed r).of_parked parked
        refine .pops (by simp [State.setWorker, State.wakeRank_api]) (.inl parked) ?_
        refine State.not_computed rfl (Function.update_self ..)
          (fun w' job' hand => absurd ⟨w', job', hand⟩ notHeld) fun done => ?_
        exact notHeld ⟨w, job, by rw [here]; exact congrArg (fun r => some (r, job)) (Option.some.inj done)⟩
      · refine .same (by simp [State.setWorker, State.wakeRank_api, same]) fun after => ?_
        exact after.before rfl (Function.update_of_ne same ..).symm.trans (by rw [here]; exact id)
    · rw [here]
      exact id
  | @updatesStatus _ r' job status woken here =>
    obtain ⟨syncs, dropped⟩ := s.updateStatus_eq r' status woken
    rw [dropped] at frame ⊢
    refine lasting.of_worker frame (fun r => ?_) (fun m => ?_) rfl
    · by_cases same : r = r'
      · subst same
        refine .drops (by simp [State.setWorker, RankApi.drained]) fun m member => ?_
        have dropped : .callbackOf m ∈ (s.api r).jobs.map ThreadJob.type := by
          obtain ⟨job', inside, type⟩ := mem_mastersOf.mp member
          exact List.mem_map.mpr ⟨job', inside, type⟩
        change ¬ (abandon (s.api r).jobs s.masters m).InProgress
        simp [abandon, dropped, Master.InProgress]
      · exact .same (by simp [State.setWorker, same]) (computed rfl rfl (by simp [WorkerPc.computed?]) r)
    · change (abandon (s.api r').jobs s.masters m).sync = _ ∧ ((abandon (s.api r').jobs s.masters m).InProgress → _)
      unfold abandon
      split_ifs
      · exact ⟨rfl, fun progress => absurd progress.2 (by simp)⟩
      · exact ⟨rfl, fun progress => ⟨progress, by simp [here, WorkerPc.master?]⟩⟩

theorem Move.lasting (move : Move s a t) (inv : s.Inv) (lasting : s.Lasting) : t.Lasting := by
  cases a with
  | begin c call =>
    obtain ⟨frame, masters, next⟩ := move.begin_frame
    obtain ⟨idle⟩ := move
    refine lasting.quiet frame masters next (fun c' other => ?_) (by rw [idle]; rfl)
    split_ifs <;> exact Function.update_of_ne other ..
  | client c =>
    rcases move.toAdd_before with before | ⟨call, r, jobs, rest, here, rfl⟩
    · have all := move.toAdd_master (inv.clients c)
      cases move.client_case (inv.clients c) with
      | quiet frame masters next others => exact lasting.quiet frame masters next others before
      | setsMaster frame masters next others ranks toAdd =>
        exact lasting.setsMaster inv.members frame masters rfl next others ranks toAdd before (all (by omega))
      | adds here =>
        rw [here] at before
        cases before
    · exact lasting.adds inv.placed here
  | compute w status => exact move.lasting_compute inv lasting
  | worker w => exact move.lasting_worker inv lasting

end

end Upmem.Jobs
