import Upmem.JobQueue

set_option linter.unusedSectionVars false

namespace Upmem.Jobs
open Transitions
variable {ρ κ ω : Type} [DecidableEq ρ] [DecidableEq κ] [DecidableEq ω]

def ThreadJob.master? (job : ThreadJob κ) : Option Nat :=
  match job.type with
  | .callbackOf m => some m
  | _ => none

/-- The master jobs of the single-call callbacks among some jobs. -/
def mastersOf (jobs : List (ThreadJob κ)) : List Nat := jobs.filterMap ThreadJob.master?

/-- The rank whose head a worker has computed. -/
def WorkerPc.computed? : WorkerPc ρ κ → Option ρ
  | .detaching r _ _ => some r
  | .waking r _ _ _ _ => some r
  | .done r _ _ => some r
  | _ => none

/-- The master job that a worker is to release. -/
def WorkerPc.master? : WorkerPc ρ κ → Option Nat
  | .detaching _ _ m => m
  | .inserting _ _ m => m
  | .detached m => m
  | .waking _ _ _ m _ => some m
  | _ => none

/-- The job at the head of a FIFO has been computed. -/
def State.Computed (s : State ρ κ ω) (r : ρ) : Prop :=
  s.parked r = true ∨ ∃ w, (s.workers w).computed? = some r

/-- The job at the head of a FIFO belongs to a callback. -/
def State.HeadOf (s : State ρ κ ω) (m : Nat) (r : ρ) : Prop :=
  ∃ job, (s.api r).jobs.head? = some job ∧ job.type = .callbackOf m

theorem ThreadJob.master?_eq {job : ThreadJob κ} {m : Nat} : job.master? = some m ↔ job.type = .callbackOf m := by
  unfold ThreadJob.master?
  split <;> simp_all

theorem mem_mastersOf {jobs : List (ThreadJob κ)} {m : Nat} :
    m ∈ mastersOf jobs ↔ ∃ job ∈ jobs, job.type = .callbackOf m := by
  simp [mastersOf, List.mem_filterMap, ThreadJob.master?_eq]

theorem mastersOf_append (front back : List (ThreadJob κ)) :
    mastersOf (front ++ back) = mastersOf front ++ mastersOf back :=
  List.filterMap_append

theorem mastersOf_tail_sublist (jobs : List (ThreadJob κ)) : (mastersOf jobs.tail).Sublist (mastersOf jobs) :=
  (List.tail_sublist jobs).filterMap _

/-- A callback has no second job behind the one at the head. -/
theorem State.HeadOf.not_mem_tail {s : State ρ κ ω} {r : ρ} {m : Nat} (head : s.HeadOf m r)
    (once : (mastersOf (s.api r).jobs).Nodup) : m ∉ mastersOf (s.api r).jobs.tail := by
  obtain ⟨job, first, type⟩ := head
  cases jobs : (s.api r).jobs with
  | nil => simp [mastersOf]
  | cons job' rest =>
    rw [jobs] at first once
    obtain rfl := Option.some.inj first
    rw [mastersOf, List.filterMap_cons_some (ThreadJob.master?_eq.mpr type)] at once
    exact (List.nodup_cons.mp once).1

theorem State.HeadOf.mem {s : State ρ κ ω} {r : ρ} {m : Nat} (head : s.HeadOf m r) :
    m ∈ mastersOf (s.api r).jobs := by
  obtain ⟨job, first, type⟩ := head
  exact mem_mastersOf.mpr ⟨job, List.mem_of_head? first, type⟩

theorem State.HeadOf.unique {s : State ρ κ ω} {r : ρ} {m m' : Nat} (head : s.HeadOf m r) (head' : s.HeadOf m' r) :
    m = m' := by
  obtain ⟨job, first, type⟩ := head
  obtain ⟨job', first', type'⟩ := head'
  obtain rfl := Option.some.inj (first.symm.trans first')
  exact JobType.callbackOf.inj (type.symm.trans type')

/-- The jobs of the single-call callbacks: a callback waits for the ranks
whose job is still to be computed, and has one job on each of them. -/
structure State.Members (s : State ρ κ ω) : Prop where
  known : ∀ r, ∀ m ∈ mastersOf (s.api r).jobs, m < s.nextMaster
  absent : ∀ r, ∀ m ∈ mastersOf (s.api r).jobs, r ∉ (s.masters m).sync.absent → s.HeadOf m r ∧ s.Computed r
  once : ∀ r, (mastersOf (s.api r).jobs).Nodup
  counter : ∀ m < s.nextMaster, (s.masters m).sync.nrRanks = (s.masters m).sync.absent.length ∧
    (s.masters m).sync.absent.Nodup ∧ (s.masters m).sync.absent ⊆ (s.masters m).ranks
  toAdd : ∀ c, ∀ entry ∈ (s.clients c).toAdd, ∀ m ∈ mastersOf entry.2,
    m < s.nextMaster ∧ entry.1 ∈ (s.masters m).sync.absent ∧ m ∉ mastersOf (s.api entry.1).jobs
  toAddOnce : ∀ c, ∀ entry ∈ (s.clients c).toAdd, (mastersOf entry.2).Nodup
  adder : ∀ m c c' entry entry', entry ∈ (s.clients c).toAdd → m ∈ mastersOf entry.2 →
    entry' ∈ (s.clients c').toAdd → m ∈ mastersOf entry'.2 → c = c'

/-- A rank is parked at a blocking callback until the worker of the last rank
wakes it, and only one worker ever releases a master job. -/
structure State.Gathered (s : State ρ κ ω) : Prop where
  ranks : ∀ m < s.nextMaster, (s.masters m).ranks.Nodup
  freed : ∀ m < s.nextMaster, (s.masters m).freed = true → (s.masters m).sync.absent = []
  parked : ∀ r, s.parked r = true → ∃ m, s.HeadOf m r ∧ m < s.nextMaster ∧ (s.masters m).isNonblocking = false ∧
    r ∈ (s.masters m).ranks ∧ r ∉ (s.masters m).sync.absent ∧ ((s.masters m).sync.absent = [] →
      ∃ w r' job status others, s.workers w = .waking r' job status m others ∧ r ∈ others)
  arrived : ∀ m < s.nextMaster, (s.masters m).isNonblocking = false → (s.masters m).sync.absent ≠ [] →
    ∀ r ∈ (s.masters m).ranks, r ∉ (s.masters m).sync.absent → s.parked r = true ∧ s.HeadOf m r
  waking : ∀ w r job status m others, s.workers w = .waking r job status m others →
    others.Nodup ∧ ∀ other ∈ others, s.parked other = true ∧ s.HeadOf m other
  holder : ∀ w m, (s.workers w).master? = some m →
    m < s.nextMaster ∧ (s.masters m).sync.absent = [] ∧ (s.masters m).freed = false
  unique : ∀ w w' m, (s.workers w).master? = some m → (s.workers w').master? = some m → w = w'

/-- What a move of a client is, as far as the callbacks are concerned. -/
inductive ClientCase (s t : State ρ κ ω) (c : κ) : Prop
  | quiet : ClientFrame s t → t.masters = s.masters → t.nextMaster = s.nextMaster →
      (∀ c' ≠ c, t.clients c' = s.clients c') → (∀ entry ∈ (t.clients c).toAdd, mastersOf entry.2 = []) →
      ClientCase s t c
  | setsMaster {call : Call ρ} {owner slot} {got : List (ρ × List Nat)} : ClientFrame s t →
      t.masters = Function.update s.masters s.nextMaster
        { slotOwner := owner, slot := slot, ranks := call.usedRanks, isNonblocking := call.isNonblocking
          sync := .init call.usedRanks, freed := false, abandoned := false } →
      t.nextMaster = s.nextMaster + 1 → (∀ c' ≠ c, t.clients c' = s.clients c') →
      got.map Prod.fst = call.usedRanks →
      (t.clients c).toAdd =
        got.map (fun (rank, slots) => (rank, call.jobsOf c (some s.nextMaster) slots)) → ClientCase s t c
  | adds {call r jobs rest} : s.clients c = .adding call ((r, jobs) :: rest) →
      t = (s.addJobs r jobs).setClient c (.adding call rest) → ClientCase s t c

section
variable {s t u : State ρ κ ω} {r : ρ} {w : ω} {c : κ} {pc : WorkerPc ρ κ}

theorem mastersOf_jobsOf_none (call : Call ρ) (slots : List Nat) : mastersOf (call.jobsOf c none slots) = [] := by
  refine List.filterMap_eq_nil_iff.mpr fun job member => ?_
  have unlike : ∀ m, job.type ≠ .callbackOf m := by
    cases slots with
    | nil => simp [Call.jobsOf] at member
    | cons slot slots =>
      rcases List.mem_cons.mp member with rfl | later
      · unfold Call.firstType
        split <;> simp
      · obtain ⟨_, _, rfl⟩ := List.mem_map.mp later
        simp
  exact Option.eq_none_iff_forall_ne_some.mpr fun m some => unlike m (ThreadJob.master?_eq.mp some)

theorem mastersOf_jobsOf_sublist (call : Call ρ) (m : Nat) (slots : List Nat) :
    (mastersOf (call.jobsOf c (some m) slots)).Sublist [m] := by
  cases slots with
  | nil => exact List.nil_sublist _
  | cons slot slots =>
    have rest : (slots.map fun slot => (⟨slot, .sync c⟩ : ThreadJob κ)).filterMap ThreadJob.master? = [] :=
      List.filterMap_eq_nil_iff.mpr fun job member => by
        obtain ⟨_, _, rfl⟩ := List.mem_map.mp member
        rfl
    rw [mastersOf, Call.jobsOf, List.filterMap_cons, rest]
    unfold Call.firstType
    cases call.kind <;> simp [ThreadJob.master?]

theorem Move.client_case (move : Move s (.client c) t) (ok : (s.clients c).Ok) : ClientCase s t c := by
  have others {u : State ρ κ ω} {pc : ClientPc ρ κ} (same : u.clients = s.clients) (c' : κ) (other : c' ≠ c) :
      (u.setClient c pc).clients c' = s.clients c' := by simp [same, other]
  have own {u : State ρ κ ω} {pc : ClientPc ρ κ} : (u.setClient c pc).clients c = pc := Function.update_self ..
  have frame := move.client_frame
  cases move with
  | adds here => exact .adds here rfl
  | @setsMaster _ g owner slot got here todo some last =>
    rw [here] at ok
    refine .setsMaster (frame.resolve_right ?_) rfl rfl (others rfl) (ok.ranks_of_master todo some last)
      (congrArg ClientPc.toAdd own)
    simp [here]
  | @setsJobs _ g here =>
    refine .quiet (frame.resolve_right (by simp [here])) rfl rfl (others rfl) ?_
    rw [own]
    intro entry member
    obtain ⟨⟨rank, slots⟩, _, rfl⟩ := List.mem_map.mp member
    exact mastersOf_jobsOf_none g.call slots
  | added here =>
    refine .quiet (frame.resolve_right (by simp [here])) rfl rfl (others rfl) ?_
    rw [own]
    split_ifs <;> simp [ClientPc.toAdd]
  | gets here | sleeps here | wakes here | fails here | ungets here | unget here | choosesMaster here | returns here
    | resets here | reset here =>
    exact .quiet (frame.resolve_right (by simp [here])) rfl rfl (others rfl) (by rw [own]; simp [ClientPc.toAdd])

theorem ClientFrame.computed (frame : ClientFrame s t) : t.Computed r ↔ s.Computed r := by
  simp only [State.Computed, frame.parked, frame.workers]

theorem ClientFrame.headOf (frame : ClientFrame s t) {m : Nat} : t.HeadOf m r ↔ s.HeadOf m r := by
  simp only [State.HeadOf, (frame.api r).jobs]

theorem State.Members.quiet (members : s.Members) (frame : ClientFrame s t) (masters : t.masters = s.masters)
    (next : t.nextMaster = s.nextMaster) (others : ∀ c' ≠ c, t.clients c' = s.clients c')
    (own : ∀ entry ∈ (t.clients c).toAdd, mastersOf entry.2 = []) : t.Members := by
  have old {c' : κ} {entry : ρ × List (ThreadJob κ)} (member : entry ∈ (t.clients c').toAdd) {m : Nat}
      (at_m : m ∈ mastersOf entry.2) : entry ∈ (s.clients c').toAdd := by
    by_cases here : c' = c
    · subst here
      rw [own entry member] at at_m
      simp at at_m
    · rwa [others c' here] at member
  have jobs (r : ρ) := (frame.api r).jobs
  constructor
  case known =>
    simp only [jobs, next]
    exact members.known
  case absent =>
    simp only [jobs, masters, frame.headOf, frame.computed]
    exact members.absent
  case once =>
    simp only [jobs]
    exact members.once
  case counter =>
    simp only [next, masters]
    exact members.counter
  case toAdd =>
    intro c' entry member m at_m
    rw [next, masters, jobs]
    exact members.toAdd c' entry (old member at_m) m at_m
  case toAddOnce =>
    intro c' entry member
    by_cases here : c' = c
    · subst here
      simp [own entry member]
    · rw [others c' here] at member
      exact members.toAddOnce c' entry member
  case adder =>
    intro m c₁ c₂ entry₁ entry₂ member₁ at₁ member₂ at₂
    exact members.adder m c₁ c₂ entry₁ entry₂ (old member₁ at₁) at₁ (old member₂ at₂) at₂

theorem State.Members.setsMaster (members : s.Members) {call : Call ρ} {got : List (ρ × List Nat)}
    {master : Master ρ}
    (frame : ClientFrame s t) (masters : t.masters = Function.update s.masters s.nextMaster master)
    (fresh : master.sync = .init call.usedRanks) (ranks : master.ranks = call.usedRanks)
    (next : t.nextMaster = s.nextMaster + 1) (others : ∀ c' ≠ c, t.clients c' = s.clients c')
    (own : got.map Prod.fst = call.usedRanks)
    (toAdd : (t.clients c).toAdd = got.map (fun (rank, slots) => (rank, call.jobsOf c (some s.nextMaster) slots))) :
    t.Members := by
  have jobs (r : ρ) := (frame.api r).jobs
  have new {entry : ρ × List (ThreadJob κ)} (member : entry ∈ (t.clients c).toAdd) :
      entry.1 ∈ call.usedRanks ∧ (mastersOf entry.2).Sublist [s.nextMaster] := by
    rw [toAdd] at member
    obtain ⟨⟨rank, slots⟩, inside, rfl⟩ := List.mem_map.mp member
    exact ⟨own ▸ List.mem_map_of_mem inside, mastersOf_jobsOf_sublist call s.nextMaster slots⟩
  have old {m : Nat} (below : m < s.nextMaster) : t.masters m = s.masters m := by
    rw [masters, Function.update_of_ne below.ne]
  have last : t.masters s.nextMaster = master := by rw [masters, Function.update_self]
  constructor
  case known =>
    intro r m member
    rw [next]
    exact Nat.lt_succ_of_lt (members.known r m (jobs r ▸ member))
  case absent =>
    intro r m member
    rw [jobs] at member
    rw [old (members.known r m member), frame.headOf, frame.computed]
    exact members.absent r m member
  case once =>
    simp only [jobs]
    exact members.once
  case counter =>
    intro m below
    rcases Nat.lt_succ_iff_lt_or_eq.mp (next ▸ below) with earlier | rfl
    · rw [old earlier]
      exact members.counter m earlier
    · rw [last, fresh, ranks]
      exact ⟨rfl, call.usedRanks_nodup, fun _ => id⟩
  case toAdd =>
    intro c' entry member m at_m
    by_cases here : c' = c
    · subst here
      obtain ⟨inside, only⟩ := new member
      obtain rfl := List.mem_singleton.mp (only.subset at_m)
      refine ⟨by omega, ?_, fun queued => ?_⟩
      · rw [last, fresh]
        exact inside
      · rw [jobs] at queued
        exact lt_irrefl _ (members.known _ _ queued)
    · rw [others c' here] at member
      obtain ⟨below, absent, free⟩ := members.toAdd c' entry member m at_m
      rw [old below, jobs]
      exact ⟨by omega, absent, free⟩
  case toAddOnce =>
    intro c' entry member
    by_cases here : c' = c
    · subst here
      exact (List.nodup_singleton _).sublist (new member).2
    · rw [others c' here] at member
      exact members.toAddOnce c' entry member
  case adder =>
    have apart {c' : κ} (here : c' ≠ c) {entry : ρ × List (ThreadJob κ)}
      (member : entry ∈ (t.clients c').toAdd) {m : Nat}
        (at_m : m ∈ mastersOf entry.2) : entry ∈ (s.clients c').toAdd ∧ m < s.nextMaster := by
      rw [others c' here] at member
      exact ⟨member, (members.toAdd c' entry member m at_m).1⟩
    intro m c₁ c₂ entry₁ entry₂ member₁ at₁ member₂ at₂
    by_cases first : c₁ = c <;> by_cases second : c₂ = c
    · rw [first, second]
    · subst first
      obtain rfl := List.mem_singleton.mp ((new member₁).2.subset at₁)
      exact absurd (apart second member₂ at₂).2 (lt_irrefl _)
    · subst second
      obtain rfl := List.mem_singleton.mp ((new member₂).2.subset at₂)
      exact absurd (apart first member₁ at₁).2 (lt_irrefl _)
    · exact members.adder m c₁ c₂ entry₁ entry₂ (apart first member₁ at₁).1 at₁ (apart second member₂ at₂).1 at₂

theorem State.addJobs_jobs (s : State ρ κ ω) (r' : ρ) (jobs : List (ThreadJob κ)) (r : ρ) :
    ((s.addJobs r' jobs).api r).jobs = (s.api r).jobs ++ if r = r' then jobs else [] := by
  rw [State.addJobs_eq]
  by_cases same : r = r' <;> simp [same]

theorem State.Members.adds (members : s.Members) {call : Call ρ} {r : ρ} {jobs : List (ThreadJob κ)}
    {rest : List (ρ × List (ThreadJob κ))} (ok : (s.clients c).Ok)
    (here : s.clients c = .adding call ((r, jobs) :: rest)) :
    ((s.addJobs r jobs).setClient c (.adding call rest)).Members := by
  have toAdd : (s.clients c).toAdd = (r, jobs) :: rest := by rw [here]; rfl
  have mine {m : Nat} (at_m : m ∈ mastersOf jobs) :=
    members.toAdd c (r, jobs) (by rw [toAdd]; exact List.mem_cons_self) m at_m
  have queue (r' : ρ) := s.addJobs_jobs r jobs r'
  have mem {m : Nat} {r' : ρ} : m ∈ mastersOf ((s.addJobs r jobs).api r').jobs ↔
      m ∈ mastersOf (s.api r').jobs ∨ r' = r ∧ m ∈ mastersOf jobs := by
    rw [queue, mastersOf_append, List.mem_append]
    by_cases same : r' = r <;> simp [same, mastersOf]
  have masters : (s.addJobs r jobs).masters = s.masters := by rw [State.addJobs_eq]
  have next : (s.addJobs r jobs).nextMaster = s.nextMaster := by rw [State.addJobs_eq]
  have computed (r' : ρ) : (s.addJobs r jobs).Computed r' ↔ s.Computed r' := by
    rw [State.addJobs_eq]
    rfl
  have still {c' : κ} {entry : ρ × List (ThreadJob κ)}
      (member : entry ∈ (((s.addJobs r jobs).setClient c (.adding call rest)).clients c').toAdd) :
      entry ∈ (s.clients c').toAdd := by
    rw [State.setClient_clients, State.addJobs_clients] at member
    by_cases same : c' = c
    · subst same
      rw [Function.update_self] at member
      rw [toAdd]
      exact .tail _ member
    · rwa [Function.update_of_ne same] at member
  constructor
  case known =>
    intro r' m member
    rcases mem.mp member with old | ⟨rfl, new⟩
    · exact next ▸ members.known r' m old
    · exact next ▸ (mine new).1
  case absent =>
    intro r' m member absent
    change r' ∉ ((s.addJobs r jobs).masters m).sync.absent at absent
    rw [masters] at absent
    rcases mem.mp member with old | ⟨rfl, new⟩
    · obtain ⟨⟨job, head, type⟩, done⟩ := members.absent r' m old absent
      refine ⟨⟨job, ?_, type⟩, (computed r').mpr done⟩
      change ((s.addJobs r jobs).api r').jobs.head? = some job
      rw [queue, List.head?_append, head, Option.some_or]
    · exact absurd (mine new).2.1 absent
  case once =>
    intro r'
    change (mastersOf ((s.addJobs r jobs).api r').jobs).Nodup
    rw [queue, mastersOf_append]
    by_cases same : r' = r
    · subst same
      rw [if_pos rfl, List.nodup_append]
      refine ⟨members.once r', members.toAddOnce c (r', jobs) (by rw [toAdd]; exact List.mem_cons_self), ?_⟩
      rintro m old _ new rfl
      exact (mine new).2.2 old
    · rw [if_neg same]
      simpa [mastersOf] using members.once r'
  case counter =>
    intro m below
    change ((s.addJobs r jobs).masters m).sync.nrRanks = ((s.addJobs r jobs).masters m).sync.absent.length ∧
      ((s.addJobs r jobs).masters m).sync.absent.Nodup ∧
      ((s.addJobs r jobs).masters m).sync.absent ⊆ ((s.addJobs r jobs).masters m).ranks
    rw [masters]
    exact members.counter m (next ▸ below)
  case toAdd =>
    intro c' entry member m at_m
    obtain ⟨below, absent, free⟩ := members.toAdd c' entry (still member) m at_m
    refine ⟨next.symm ▸ below, ?_, fun queued => ?_⟩
    · change entry.1 ∈ ((s.addJobs r jobs).masters m).sync.absent
      rwa [masters]
    · rcases mem.mp queued with old | ⟨same, new⟩
      · exact free old
      · obtain rfl := members.adder m c c' (r, jobs) entry (by rw [toAdd]; exact List.mem_cons_self) new
          (still member) at_m
        rw [here] at ok
        have later : entry ∈ rest := by
          have own := member
          rwa [State.setClient_clients, Function.update_self] at own
        have twice : entry.1 ∈ rest.map Prod.fst := List.mem_map_of_mem later
        exact (List.nodup_cons.mp ok.1).1 (same ▸ twice)
  case toAddOnce => exact fun c' entry member => members.toAddOnce c' entry (still member)
  case adder =>
    exact fun m c₁ c₂ entry₁ entry₂ member₁ at₁ member₂ at₂ =>
      members.adder m c₁ c₂ entry₁ entry₂ (still member₁) at₁ (still member₂) at₂

/-- Nothing arrives at a callback: FIFOs may lose their head or all of their jobs. -/
theorem State.Members.mono (members : s.Members)
    (jobs : ∀ r, (t.api r).jobs = (s.api r).jobs ∧ (s.Computed r → t.Computed r) ∨
      (t.api r).jobs = (s.api r).jobs.tail ∨
      (t.api r).jobs = [])
    (masters : ∀ m, (t.masters m).sync = (s.masters m).sync ∧ (t.masters m).ranks = (s.masters m).ranks)
    (next : t.nextMaster = s.nextMaster) (clients : t.clients = s.clients) : t.Members := by
  have sublist (r : ρ) : (mastersOf (t.api r).jobs).Sublist (mastersOf (s.api r).jobs) := by
    rcases jobs r with ⟨same, _⟩ | popped | dropped
    · rw [same]
    · rw [popped]
      exact mastersOf_tail_sublist _
    · rw [dropped]
      exact List.nil_sublist _
  constructor
  case known => exact fun r m member => next ▸ members.known r m ((sublist r).subset member)
  case absent =>
    intro r m member absent
    rw [(masters m).1] at absent
    obtain ⟨head, done⟩ := members.absent r m ((sublist r).subset member) absent
    rcases jobs r with ⟨same, computed⟩ | popped | dropped
    · refine ⟨?_, computed done⟩
      rwa [State.HeadOf, same]
    · rw [popped] at member
      exact absurd member (head.not_mem_tail (members.once r))
    · rw [dropped] at member
      cases member
  case once => exact fun r => (members.once r).sublist (sublist r)
  case counter =>
    intro m below
    rw [(masters m).1, (masters m).2]
    exact members.counter m (next ▸ below)
  case toAdd =>
    intro c entry member m at_m
    rw [clients] at member
    obtain ⟨below, absent, free⟩ := members.toAdd c entry member m at_m
    rw [next, (masters m).1]
    exact ⟨below, absent, fun queued => free ((sublist _).subset queued)⟩
  case toAddOnce =>
    rw [clients]
    exact members.toAddOnce
  case adder =>
    rw [clients]
    exact members.adder

/-- A rank whose job a worker is about to compute has not arrived. -/
theorem State.Members.mem_absent (members : s.Members) (placed : ∀ r, s.Placed r) {job : ThreadJob κ} {m : Nat}
    (here : s.workers w = .run r job) (type : job.type = .callbackOf m) :
    s.HeadOf m r ∧ ¬ s.Computed r ∧ m < s.nextMaster ∧ r ∈ (s.masters m).sync.absent := by
  have hand : (s.workers w).hand? = some (r, job) := by rw [here]; rfl
  obtain ⟨head, only, _, notParked⟩ := (placed r).of_hand hand
  have headOf : s.HeadOf m r := ⟨job, head, type⟩
  have notComputed : ¬ s.Computed r := by
    rintro (parked | ⟨w', done⟩)
    · exact Bool.false_ne_true (notParked.symm.trans parked)
    · have held : ∃ job', (s.workers w').hand? = some (r, job') := by
        cases pc : s.workers w' <;> simp_all [WorkerPc.computed?, WorkerPc.hand?]
      obtain ⟨job', held⟩ := held
      rw [only w' job' held, here] at done
      cases done
  refine ⟨headOf, notComputed, members.known r m headOf.mem, ?_⟩
  by_contra absent
  exact notComputed (members.absent r m headOf.mem absent).2

/-- A rank arrives at a callback. -/
theorem State.Members.arrive (members : s.Members) (placed : ∀ r, s.Placed r) {job : ThreadJob κ} {m : Nat}
    (here : s.workers w = .run r job) (type : job.type = .callbackOf m) (api : t.api = s.api)
    (masters : t.masters = Function.update s.masters m ((s.masters m).arrive r))
    (computed : ∀ r', s.Computed r' ∨ r' = r → t.Computed r') (next : t.nextMaster = s.nextMaster)
    (clients : t.clients = s.clients) : t.Members := by
  obtain ⟨head, _, below, inside⟩ := members.mem_absent placed here type
  have own : t.masters m = (s.masters m).arrive r := by rw [masters, Function.update_self]
  have other {m' : Nat} (different : m' ≠ m) : t.masters m' = s.masters m' := by
    rw [masters, Function.update_of_ne different]
  have headOf (m' : Nat) (r' : ρ) : t.HeadOf m' r' ↔ s.HeadOf m' r' := by rw [State.HeadOf, api, ← State.HeadOf]
  have nodup := (members.counter m below).2.1
  have left {m' : Nat} {r' : ρ} (absent : r' ∉ (t.masters m').sync.absent) :
      r' ∉ (s.masters m').sync.absent ∨ m' = m ∧ r' = r := by
    by_cases same : m' = m
    · subst same
      rw [own] at absent
      by_cases here : r' = r
      · exact .inr ⟨rfl, here⟩
      · exact .inl fun member => absent ((List.mem_erase_of_ne here).mpr member)
    · rw [other same] at absent
      exact .inl absent
  constructor
  case known =>
    rw [api, next]
    exact members.known
  case absent =>
    intro r' m' member absent
    rw [api] at member
    rcases left absent with old | ⟨rfl, rfl⟩
    · obtain ⟨at_head, done⟩ := members.absent r' m' member old
      exact ⟨(headOf m' r').mpr at_head, computed r' (.inl done)⟩
    · exact ⟨(headOf m' r').mpr head, computed r' (.inr rfl)⟩
  case once =>
    rw [api]
    exact members.once
  case counter =>
    intro m' below'
    rw [next] at below'
    by_cases same : m' = m
    · subst same
      obtain ⟨length, _, subset⟩ := members.counter m' below
      rw [own]
      refine ⟨?_, nodup.erase r, fun r' member => subset (List.mem_of_mem_erase member)⟩
      change (s.masters m').sync.nrRanks - 1 = ((s.masters m').sync.absent.erase r).length
      rw [List.length_erase_of_mem inside, length]
    · rw [other same]
      exact members.counter m' below'
  case toAdd =>
    intro c entry member m' at_m
    rw [clients] at member
    obtain ⟨below', absent, free⟩ := members.toAdd c entry member m' at_m
    rw [next, api]
    refine ⟨below', ?_, free⟩
    by_contra gone
    rcases left gone with old | ⟨rfl, same⟩
    · exact old absent
    · exact free (same ▸ head.mem)
  case toAddOnce =>
    rw [clients]
    exact members.toAddOnce
  case adder =>
    rw [clients]
    exact members.adder

/-- Nothing arrives at a callback and no rank is woken. -/
theorem State.Gathered.mono (gathered : s.Gathered)
    (headOf : ∀ m r, s.parked r = true → s.HeadOf m r → t.HeadOf m r) (parked : t.parked = s.parked)
    (masters : ∀ m < s.nextMaster, (t.masters m).sync = (s.masters m).sync ∧
      (t.masters m).ranks = (s.masters m).ranks ∧
      (t.masters m).isNonblocking = (s.masters m).isNonblocking ∧
      ((t.masters m).freed = true → (s.masters m).freed = true ∨ (s.masters m).sync.absent = []))
    (next : t.nextMaster = s.nextMaster)
    (waking : ∀ w r job status m others, t.workers w = .waking r job status m others →
      s.workers w = .waking r job status m others)
    (woken : ∀ w r job status m others, s.workers w = .waking r job status m others → others ≠ [] →
      t.workers w = .waking r job status m others)
    (holder : ∀ w m, (t.workers w).master? = some m →
      (s.workers w).master? = some m ∧ (t.masters m).freed = (s.masters m).freed) : t.Gathered := by
  constructor
  case ranks =>
    intro m below
    rw [next] at below
    rw [(masters m below).2.1]
    exact gathered.ranks m below
  case freed =>
    intro m below freed
    rw [next] at below
    obtain ⟨sync, _, _, before⟩ := masters m below
    rw [sync]
    exact (before freed).elim (gathered.freed m below) id
  case parked =>
    intro r at_park
    rw [parked] at at_park
    obtain ⟨m, head, below, blocking, member, arrived, waker⟩ := gathered.parked r at_park
    obtain ⟨sync, ranks, kind, _⟩ := masters m below
    refine ⟨m, headOf m r at_park head, next ▸ below, kind.trans blocking, ranks ▸ member, sync ▸ arrived,
      fun all => ?_⟩
    obtain ⟨w, r', job, status, others, here, inside⟩ := waker (sync ▸ all)
    exact ⟨w, r', job, status, others, woken _ _ _ _ _ _ here (List.ne_nil_of_mem inside), inside⟩
  case arrived =>
    intro m below blocking some r member arrived
    rw [next] at below
    obtain ⟨sync, ranks, kind, _⟩ := masters m below
    rw [kind] at blocking
    rw [sync] at some arrived
    rw [ranks] at member
    obtain ⟨at_park, head⟩ := gathered.arrived m below blocking some r member arrived
    exact ⟨parked ▸ at_park, headOf m r at_park head⟩
  case waking =>
    intro w r job status m others here
    obtain ⟨nodup, all⟩ := gathered.waking w r job status m others (waking _ _ _ _ _ _ here)
    refine ⟨nodup, fun other member => ?_⟩
    obtain ⟨at_park, head⟩ := all other member
    exact ⟨parked ▸ at_park, headOf m other at_park head⟩
  case holder =>
    intro w m holds
    obtain ⟨before, freed⟩ := holder w m holds
    obtain ⟨below, all, notFreed⟩ := gathered.holder w m before
    exact ⟨next ▸ below, (masters m below).1 ▸ all, freed.trans notFreed⟩
  case unique => exact fun w w' m holds holds' => gathered.unique w w' m (holder w m holds).1 (holder w' m holds').1

theorem State.Gathered.setsMaster (gathered : s.Gathered) {call : Call ρ} {master : Master ρ}
    (frame : ClientFrame s t) (masters : t.masters = Function.update s.masters s.nextMaster master)
    (fresh : master.sync = .init call.usedRanks) (ranks : master.ranks = call.usedRanks)
    (notFreed : master.freed = false)
    (next : t.nextMaster = s.nextMaster + 1) : t.Gathered := by
  have old {m : Nat} (below : m < s.nextMaster) : t.masters m = s.masters m := by
    rw [masters, Function.update_of_ne below.ne]
  have last : t.masters s.nextMaster = master := by rw [masters, Function.update_self]
  constructor
  case ranks =>
    intro m below
    rcases Nat.lt_succ_iff_lt_or_eq.mp (next ▸ below) with earlier | rfl
    · rw [old earlier]
      exact gathered.ranks m earlier
    · rw [last, ranks]
      exact call.usedRanks_nodup
  case freed =>
    intro m below freed
    rcases Nat.lt_succ_iff_lt_or_eq.mp (next ▸ below) with earlier | rfl
    · rw [old earlier] at freed ⊢
      exact gathered.freed m earlier freed
    · rw [last, notFreed] at freed
      cases freed
  case parked =>
    intro r at_park
    rw [frame.parked] at at_park
    obtain ⟨m, head, below, rest⟩ := gathered.parked r at_park
    rw [← old below, ← frame.workers] at rest
    exact ⟨m, frame.headOf.mpr head, by omega, rest⟩
  case arrived =>
    intro m below blocking some r member arrived
    rcases Nat.lt_succ_iff_lt_or_eq.mp (next ▸ below) with earlier | rfl
    · rw [old earlier] at blocking some member arrived
      obtain ⟨at_park, head⟩ := gathered.arrived m earlier blocking some r member arrived
      exact ⟨frame.parked ▸ at_park, frame.headOf.mpr head⟩
    · rw [last, fresh] at arrived
      rw [last, ranks] at member
      exact absurd member arrived
  case waking =>
    intro w r job status m others here
    rw [frame.workers] at here
    obtain ⟨nodup, all⟩ := gathered.waking w r job status m others here
    exact ⟨nodup, fun other member => ⟨frame.parked ▸ (all other member).1, frame.headOf.mpr (all other member).2⟩⟩
  case holder =>
    intro w m holds
    rw [frame.workers] at holds
    obtain ⟨below, all⟩ := gathered.holder w m holds
    rw [old below]
    exact ⟨by omega, all⟩
  case unique =>
    rw [frame.workers]
    exact gathered.unique

/-- A rank arrives at a callback that waits for others. -/
theorem State.Gathered.arrive (gathered : s.Gathered) (members : s.Members) (placed : ∀ r, s.Placed r)
    {job : ThreadJob κ} {m : Nat} (here : s.workers w = .run r job) (type : job.type = .callbackOf m)
    (more : (s.masters m).sync.nrRanks ≠ 1) (api : t.api = s.api)
    (masters : t.masters = Function.update s.masters m ((s.masters m).arrive r))
    (parked : ∀ r', t.parked r' = true ↔ s.parked r' = true ∨ r' = r ∧ (s.masters m).isNonblocking = false)
    (next : t.nextMaster = s.nextMaster) (workers : t.workers = Function.update s.workers w pc)
    (quiet : pc.master? = none) : t.Gathered := by
  obtain ⟨head, _, below, inside⟩ := members.mem_absent placed here type
  obtain ⟨length, nodup, subset⟩ := members.counter m below
  have own : t.masters m = (s.masters m).arrive r := by rw [masters, Function.update_self]
  have other {m' : Nat} (different : m' ≠ m) : t.masters m' = s.masters m' := by
    rw [masters, Function.update_of_ne different]
  have headOf (m' : Nat) (r' : ρ) : t.HeadOf m' r' ↔ s.HeadOf m' r' := by rw [State.HeadOf, api, ← State.HeadOf]
  have some : (s.masters m).sync.absent ≠ [] := List.ne_nil_of_mem inside
  have left : ((s.masters m).sync.absent.erase r) ≠ [] := by
    have count := List.length_erase_of_mem inside
    have positive := List.length_pos_of_mem inside
    exact List.ne_nil_of_length_pos (by omega)
  have same {w' : ω} (holds : t.workers w' ≠ pc) : t.workers w' = s.workers w' := by
    rw [workers] at holds ⊢
    by_cases mine : w' = w
    · subst mine
      exact absurd (Function.update_self ..) holds
    · rw [Function.update_of_ne mine]
  have holds {w' : ω} {m' : Nat} (master : (t.workers w').master? = .some m') :
      (s.workers w').master? = .some m' := by
    rwa [← same fun mine => by rw [mine, quiet] at master; cases master]
  have away {w' : ω} (r' : ρ) (job' : ThreadJob κ) (status : DpuError) (m' : Nat) (others : List ρ)
      (at_waking : s.workers w' = .waking r' job' status m' others) :
          t.workers w' = .waking r' job' status m' others := by
    rw [workers, Function.update_of_ne, at_waking]
    rintro rfl
    rw [here] at at_waking
    cases at_waking
  constructor
  case ranks =>
    intro m' below'
    rw [next] at below'
    by_cases mine : m' = m
    · subst mine
      rw [own]
      exact gathered.ranks m' below
    · rw [other mine]
      exact gathered.ranks m' below'
  case freed =>
    intro m' below' freed
    rw [next] at below'
    by_cases mine : m' = m
    · subst mine
      rw [own] at freed
      exact absurd (gathered.freed m' below freed) some
    · rw [other mine] at freed ⊢
      exact gathered.freed m' below' freed
  case parked =>
    intro r' at_park
    rcases (parked r').mp at_park with before | ⟨rfl, blocking⟩
    · obtain ⟨m', at_head, below', blocking, member, arrived, waker⟩ := gathered.parked r' before
      refine ⟨m', (headOf m' r').mpr at_head, next ▸ below', ?_⟩
      by_cases mine : m' = m
      · subst mine
        rw [own]
        exact ⟨blocking, member, fun still => arrived (List.mem_of_mem_erase still), fun all => absurd all left⟩
      · rw [other mine]
        refine ⟨blocking, member, arrived, fun all => ?_⟩
        obtain ⟨w', r'', job', status, others, at_waking, inside'⟩ := waker all
        exact ⟨w', r'', job', status, others, away _ _ _ _ _ at_waking, inside'⟩
    · refine ⟨m, (headOf m r').mpr head, next ▸ below, ?_⟩
      rw [own]
      exact ⟨blocking, subset inside, nodup.not_mem_erase, fun all => absurd all left⟩
  case arrived =>
    intro m' below' blocking some' r' member arrived
    rw [next] at below'
    rw [parked, headOf]
    by_cases mine : m' = m
    · subst mine
      rw [own] at blocking member arrived
      by_cases at_rank : r' = r
      · exact ⟨.inr ⟨at_rank, blocking⟩, at_rank ▸ head⟩
      · have before : r' ∉ (s.masters m').sync.absent :=
          fun still => arrived ((List.mem_erase_of_ne at_rank).mpr still)
        obtain ⟨at_park, at_head⟩ := gathered.arrived m' below blocking some r' member before
        exact ⟨.inl at_park, at_head⟩
    · rw [other mine] at blocking some' member arrived
      obtain ⟨at_park, at_head⟩ := gathered.arrived m' below' blocking some' r' member arrived
      exact ⟨.inl at_park, at_head⟩
  case waking =>
    intro w' r' job' status m' others at_waking
    rw [same fun mine => by rw [← mine, at_waking] at quiet; cases quiet] at at_waking
    obtain ⟨distinct, all⟩ := gathered.waking w' r' job' status m' others at_waking
    exact ⟨distinct, fun o member => ⟨(parked o).mpr (.inl (all o member).1), (headOf m' o).mpr (all o member).2⟩⟩
  case holder =>
    intro w' m' master
    obtain ⟨below', all, notFreed⟩ := gathered.holder w' m' (holds master)
    have mine : m' ≠ m := by
      rintro rfl
      exact some all
    rw [next, other mine]
    exact ⟨below', all, notFreed⟩
  case unique => exact fun w₁ w₂ m' first second => gathered.unique w₁ w₂ m' (holds first) (holds second)

/-- The last rank arrives at a callback: its worker calls the function. -/
theorem State.Gathered.last (gathered : s.Gathered) (members : s.Members) (placed : ∀ r, s.Placed r)
    {job : ThreadJob κ} {m : Nat} (here : s.workers w = .run r job) (type : job.type = .callbackOf m)
    (one : (s.masters m).sync.nrRanks = 1) (api : t.api = s.api)
    (masters : t.masters = Function.update s.masters m ((s.masters m).arrive r)) (parked : t.parked = s.parked)
    (next : t.nextMaster = s.nextMaster) (workers : t.workers = Function.update s.workers w pc)
    (master : pc.master? = some m)
    (calls : (s.masters m).isNonblocking = false → ∃ status,
      pc = .waking r job status m ((s.masters m).ranks.filter fun other => other ≠ r))
    (callsNonblocking : (s.masters m).isNonblocking = true →
      ∀ r' job' status m' others, pc ≠ .waking r' job' status m' others) : t.Gathered := by
  obtain ⟨head, notComputed, below, inside⟩ := members.mem_absent placed here type
  obtain ⟨length, nodup, subset⟩ := members.counter m below
  have only : (s.masters m).sync.absent = [r] := by
    obtain ⟨r', single⟩ := List.length_eq_one_iff.mp (length.symm.trans one)
    rw [single] at inside ⊢
    rw [List.mem_singleton.mp inside]
  have own : t.masters m = (s.masters m).arrive r := by rw [masters, Function.update_self]
  have all : (t.masters m).sync.absent = [] := by simp [own, Master.arrive, SyncObject.arrive, only]
  have other {m' : Nat} (different : m' ≠ m) : t.masters m' = s.masters m' := by
    rw [masters, Function.update_of_ne different]
  have headOf (m' : Nat) (r' : ρ) : t.HeadOf m' r' ↔ s.HeadOf m' r' := by rw [State.HeadOf, api, ← State.HeadOf]
  have mine : t.workers w = pc := by rw [workers, Function.update_self]
  have same {w' : ω} (different : w' ≠ w) : t.workers w' = s.workers w' := by
    rw [workers, Function.update_of_ne different]
  have elsewhere {w' : ω} (before : (s.workers w').master? = some m) : False := by
    have none := (gathered.holder w' m before).2.1
    rw [only] at none
    cases none
  have gathers (blocking : (s.masters m).isNonblocking = false) {o : ρ} (member : o ∈ (s.masters m).ranks)
      (different : o ≠ r) : s.parked o = true ∧ s.HeadOf m o :=
    gathered.arrived m below blocking (by rw [only]; simp) o member (by rw [only]; simpa using different)
  constructor
  case ranks =>
    intro m' below'
    rw [next] at below'
    by_cases at_m : m' = m
    · subst at_m
      rw [own]
      exact gathered.ranks m' below
    · rw [other at_m]
      exact gathered.ranks m' below'
  case freed =>
    intro m' below' freed
    rw [next] at below'
    by_cases at_m : m' = m
    · subst at_m
      exact all
    · rw [other at_m] at freed ⊢
      exact gathered.freed m' below' freed
  case parked =>
    intro r' at_park
    rw [parked] at at_park
    obtain ⟨m', at_head, below', blocking, member, arrived, waker⟩ := gathered.parked r' at_park
    refine ⟨m', (headOf m' r').mpr at_head, next ▸ below', ?_⟩
    by_cases at_m : m' = m
    · subst at_m
      have different : r' ≠ r := by
        rintro rfl
        exact notComputed (.inl at_park)
      obtain ⟨status, calling⟩ := calls blocking
      rw [all, own]
      refine ⟨blocking, member, by simp, fun _ => ⟨w, r, job, status, _, mine.trans calling, ?_⟩⟩
      exact List.mem_filter.mpr ⟨member, by simpa using different⟩
    · rw [other at_m]
      refine ⟨blocking, member, arrived, fun none => ?_⟩
      obtain ⟨w', r'', job', status, others, at_waking, inside'⟩ := waker none
      refine ⟨w', r'', job', status, others, ?_, inside'⟩
      rwa [same]
      rintro rfl
      rw [here] at at_waking
      cases at_waking
  case arrived =>
    intro m' below' blocking some' r' member arrived
    rw [next] at below'
    have at_m : m' ≠ m := by
      rintro rfl
      exact some' all
    rw [other at_m] at blocking some' member arrived
    rw [parked, headOf]
    exact gathered.arrived m' below' blocking some' r' member arrived
  case waking =>
    intro w' r' job' status' m' others at_waking
    by_cases at_w : w' = w
    · subst at_w
      rw [mine] at at_waking
      cases kind : (s.masters m).isNonblocking with
      | true => exact absurd at_waking (callsNonblocking kind _ _ _ _ _)
      | false =>
        obtain ⟨status, calling⟩ := calls kind
        obtain ⟨rfl, rfl, rfl, rfl, rfl⟩ := WorkerPc.waking.inj (at_waking.symm.trans calling)
        refine ⟨(gathered.ranks m' below).filter _, fun o member => ?_⟩
        obtain ⟨member, different⟩ := List.mem_filter.mp member
        rw [parked, headOf]
        exact gathers kind member (by simpa using different)
    · rw [same at_w] at at_waking
      obtain ⟨distinct, each⟩ := gathered.waking w' r' job' status' m' others at_waking
      exact ⟨distinct, fun o member => ⟨parked ▸ (each o member).1, (headOf m' o).mpr (each o member).2⟩⟩
  case holder =>
    intro w' m' holds
    by_cases at_m : m' = m
    · subst at_m
      rw [next]
      refine ⟨below, all, ?_⟩
      rw [own]
      refine Bool.eq_false_iff.mpr fun freed => ?_
      have none := gathered.freed m' below freed
      rw [only] at none
      cases none
    · have at_w : w' ≠ w := by
        rintro rfl
        rw [mine, master] at holds
        exact at_m (Option.some.inj holds).symm
      rw [same at_w] at holds
      rw [next, other at_m]
      exact gathered.holder w' m' holds
  case unique =>
    have keeps {w' : ω} {m' : Nat} (holds : (t.workers w').master? = some m') :
        w' = w ∧ m' = m ∨ w' ≠ w ∧ (s.workers w').master? = some m' := by
      by_cases at_w : w' = w
      · subst at_w
        rw [mine, master] at holds
        exact .inl ⟨rfl, (Option.some.inj holds).symm⟩
      · rw [same at_w] at holds
        exact .inr ⟨at_w, holds⟩
    intro w₁ w₂ m' first second
    rcases keeps first with ⟨rfl, rfl⟩ | ⟨_, before₁⟩ <;> rcases keeps second with ⟨rfl, at_m⟩ | ⟨_, before₂⟩
    · rfl
    · exact absurd before₂ elsewhere
    · exact absurd (at_m ▸ before₁) elsewhere
    · exact gathered.unique w₁ w₂ m' before₁ before₂

/-- A worker goes on without waking a rank. -/
theorem State.Gathered.of_worker (gathered : s.Gathered) (workers : t.workers = Function.update s.workers w pc)
    (parked : t.parked = s.parked) (next : t.nextMaster = s.nextMaster)
    (headOf : ∀ m r, s.parked r = true → s.HeadOf m r → t.HeadOf m r)
    (masters : ∀ m, (t.masters m).sync = (s.masters m).sync ∧ (t.masters m).ranks = (s.masters m).ranks ∧
      (t.masters m).isNonblocking = (s.masters m).isNonblocking ∧
      ((t.masters m).freed = (s.masters m).freed ∨ (s.workers w).master? = some m ∧ pc.master? = none))
    (quiet : ∀ r job status m others, pc ≠ .waking r job status m others)
    (woken : ∀ r job status m others, s.workers w = .waking r job status m others → others = [])
    (master : ∀ m, pc.master? = some m → (s.workers w).master? = some m) : t.Gathered := by
  have mine : t.workers w = pc := by rw [workers, Function.update_self]
  have same {w' : ω} (different : w' ≠ w) : t.workers w' = s.workers w' := by
    rw [workers, Function.update_of_ne different]
  refine gathered.mono headOf parked (fun m _ => ?_) next ?_ ?_ ?_
  · obtain ⟨sync, ranks, kind, freed⟩ := masters m
    refine ⟨sync, ranks, kind, fun now => ?_⟩
    rcases freed with before | ⟨holds, _⟩
    · exact .inl (before ▸ now)
    · exact .inr (gathered.holder w m holds).2.1
  · intro w' r job status m others here
    have different : w' ≠ w := by
      rintro rfl
      exact quiet _ _ _ _ _ (mine.symm.trans here)
    rwa [same different] at here
  · intro w' r job status m others here some
    rwa [same]
    rintro rfl
    exact some (woken _ _ _ _ _ here)
  · intro w' m holds
    by_cases at_w : w' = w
    · subst at_w
      rw [mine] at holds
      refine ⟨master m holds, (masters m).2.2.2.resolve_right ?_⟩
      rintro ⟨_, none⟩
      rw [none] at holds
      cases holds
    · rw [same at_w] at holds
      exact ⟨holds, (masters m).2.2.2.resolve_right fun both => at_w (gathered.unique w' w m holds both.1)⟩

/-- A worker wakes a parked rank. -/
theorem State.Gathered.wakesRank (gathered : s.Gathered) {job : ThreadJob κ} {status : DpuError}
    {m : Nat} {other : ρ} {others : List ρ} {woken : Option κ}
    (here : s.workers w = .waking r job status m (other :: others)) :
    ((s.wakeRank woken other).setWorker w (.waking r job status m others)).Gathered := by
  obtain ⟨distinct, all⟩ := gathered.waking w r job status m _ here
  obtain ⟨notLater, distinct⟩ := List.nodup_cons.mp distinct
  obtain ⟨_, at_other⟩ := all other List.mem_cons_self
  have holds : (s.workers w).master? = some m := by rw [here]; rfl
  obtain ⟨_, none, _⟩ := gathered.holder w m holds
  have api {r' : ρ} (different : r' ≠ other) : (s.wakeRank woken other).api r' = s.api r' := by
    rw [State.wakeRank_api, Function.update_of_ne different]
  have headOf {m' : Nat} {r' : ρ} (different : r' ≠ other) (head : s.HeadOf m' r') :
      ((s.wakeRank woken other).setWorker w (.waking r job status m others)).HeadOf m' r' := by
    obtain ⟨job', first, type⟩ := head
    exact ⟨job', by rw [← api different] at first; exact first, type⟩
  have parked (r' : ρ) : (s.wakeRank woken other).parked r' = true ↔ r' ≠ other ∧ s.parked r' = true := by
    by_cases same : r' = other
    · subst same
      simp [State.wakeRank]
    · simp [State.wakeRank, State.insertRank, State.setQueue, State.setApi, same]
  have workers {w' : ω} (different : w' ≠ w) :
      ((s.wakeRank woken other).setWorker w (.waking r job status m others)).workers w' = s.workers w' :=
    Function.update_of_ne different ..
  have mine : ((s.wakeRank woken other).setWorker w (.waking r job status m others)).workers w =
      .waking r job status m others := Function.update_self ..
  have keeps (w' : ω) :
      (((s.wakeRank woken other).setWorker w (.waking r job status m others)).workers w').master? =
        (s.workers w').master? := by
    by_cases at_w : w' = w
    · subst at_w
      rw [mine, holds]
      rfl
    · rw [workers at_w]
  constructor
  case ranks => exact gathered.ranks
  case freed => exact gathered.freed
  case parked =>
    intro r' at_park
    obtain ⟨different, before⟩ := (parked r').mp at_park
    obtain ⟨m', head, below, blocking, member, arrived, waker⟩ := gathered.parked r' before
    refine ⟨m', headOf different head, below, blocking, member, arrived, fun all' => ?_⟩
    obtain ⟨w', r'', job', status', others', at_waking, inside⟩ := waker all'
    by_cases at_w : w' = w
    · subst at_w
      obtain ⟨rfl, rfl, rfl, rfl, rfl⟩ := WorkerPc.waking.inj (at_waking.symm.trans here)
      exact ⟨w', _, _, _, others, mine, (List.mem_cons.mp inside).resolve_left different⟩
    · exact ⟨w', r'', job', status', others', (workers at_w).trans at_waking, inside⟩
  case arrived =>
    intro m' below blocking some r' member arrived
    obtain ⟨at_park, head⟩ := gathered.arrived m' below blocking some r' member arrived
    have different : r' ≠ other := by
      rintro rfl
      exact some (head.unique at_other ▸ none)
    exact ⟨(parked r').mpr ⟨different, at_park⟩, headOf different head⟩
  case waking =>
    intro w' r' job' status' m' others' at_waking
    have keep {o : ρ} (different : o ≠ other) (before : s.parked o = true ∧ s.HeadOf m' o) :
        (s.wakeRank woken other).parked o = true ∧
          ((s.wakeRank woken other).setWorker w (.waking r job status m others)).HeadOf m' o :=
      ⟨(parked o).mpr ⟨different, before.1⟩, headOf different before.2⟩
    by_cases at_w : w' = w
    · subst at_w
      obtain ⟨rfl, rfl, rfl, rfl, rfl⟩ := WorkerPc.waking.inj (at_waking.symm.trans mine)
      exact ⟨distinct, fun o member =>
        keep (fun same => notLater (same ▸ member)) (all o (List.mem_cons_of_mem _ member))⟩
    · rw [workers at_w] at at_waking
      obtain ⟨distinct', all'⟩ := gathered.waking w' r' job' status' m' others' at_waking
      refine ⟨distinct', fun o member => keep ?_ (all' o member)⟩
      rintro rfl
      obtain rfl := (all' o member).2.unique at_other
      exact at_w (gathered.unique w' w m' (by rw [at_waking]; rfl) holds)
  case holder =>
    intro w' m' holds'
    exact gathered.holder w' m' (keeps w' ▸ holds')
  case unique =>
    intro w₁ w₂ m' first second
    exact gathered.unique w₁ w₂ m' (keeps w₁ ▸ first) (keeps w₂ ▸ second)

/-- What holds of the FIFOs, the queues and the callbacks in every reachable state. -/
structure State.Inv (s : State ρ κ ω) : Prop where
  clients : ∀ c, (s.clients c).Ok
  placed : ∀ r, s.Placed r
  once : ∀ q, (s.queue q).Nodup
  members : s.Members
  gathered : s.Gathered

theorem State.Created.inv (created : s.Created) : s.Inv := by
  have jobs (r : ρ) : (s.api r).jobs = [] := (created.api r).jobs
  have none (m : Nat) : ¬ m < s.nextMaster := by simp [created.nextMaster]
  have idle (w : ω) : s.workers w = .idle := created.workers w
  constructor
  case clients =>
    intro c
    rw [created.clients c]
    trivial
  case placed =>
    refine fun r => .empty (by rw [jobs, List.head?_nil]) ?_ ?_ (created.parked r)
    · rintro ⟨q, job, member⟩
      simp [created.queue q] at member
    · rintro ⟨w, job, held⟩
      simp [idle w, WorkerPc.hand?] at held
  case once => exact fun q => created.queue q ▸ .nil
  case members =>
    have toAdd (c : κ) : (s.clients c).toAdd = [] := by rw [created.clients c]; rfl
    exact ⟨fun r => by simp [jobs, mastersOf], fun r => by simp [jobs, mastersOf], fun r => by
      simp [jobs, mastersOf],
      fun m below => absurd below (none m), fun c => by simp [toAdd], fun c => by simp [toAdd],
      fun m c c' entry entry' member => by simp [toAdd] at member⟩
  case gathered =>
    exact ⟨fun m below => absurd below (none m), fun m below => absurd below (none m),
      fun r at_park => by simp [created.parked r] at at_park, fun m below => absurd below (none m),
      fun w r job status m others here => by simp [idle w] at here,
      fun w m holds => by simp [idle w, WorkerPc.master?] at holds,
      fun w w' m holds => by simp [idle w, WorkerPc.master?] at holds⟩

theorem State.Computed.of_worker (before : s.Computed r) (workers : u.workers = s.workers)
    (parked : s.parked r = true → u.parked r = true)
    (still : (s.workers w).computed? = some r → pc.computed? = some r) :
    (u.setWorker w pc).Computed r := by
  rcases before with at_park | ⟨w', done⟩
  · exact .inl (parked at_park)
  · refine .inr ⟨w', ?_⟩
    rw [State.setWorker_workers, workers]
    by_cases same : w' = w
    · subst same
      rw [Function.update_self]
      exact still done
    · rwa [Function.update_of_ne same]

theorem Move.members_compute {status : DpuError} (move : Move s (.compute w status) t) (members : s.Members)
    (placed : ∀ r, s.Placed r) : t.Members := by
  have computed {u : State ρ κ ω} {pc : WorkerPc ρ κ} {r : ρ} {job : ThreadJob κ} (here : s.workers w = .run r job)
      (workers : u.workers = s.workers) (parked : ∀ r', s.parked r' = true → u.parked r' = true) (r' : ρ)
      (before : s.Computed r' ∨ r' = r ∧ (pc.computed? = some r ∨ u.parked r = true)) :
          (u.setWorker w pc).Computed r' := by
    rcases before with before | ⟨rfl, done | at_park⟩
    · refine before.of_worker workers (parked r') fun done => ?_
      rw [here] at done
      cases done
    · exact .inr ⟨w, by rw [State.setWorker_workers, Function.update_self]; exact done⟩
    · exact .inl at_park
  have quiet {u : State ρ κ ω} {pc : WorkerPc ρ κ} {r : ρ} {job : ThreadJob κ} (here : s.workers w = .run r job)
      (api : u.api = s.api) (workers : u.workers = s.workers) (parked : u.parked = s.parked)
      (masters : u.masters = s.masters) (next : u.nextMaster = s.nextMaster) (clients : u.clients = s.clients) :
      (u.setWorker w pc).Members :=
    members.mono (fun r' => .inl ⟨congrArg (fun api => (api r').jobs) api,
        fun before => computed here workers (fun _ at_park => parked ▸ at_park) r' (.inl before)⟩)
      (fun m => ⟨congrArg (fun masters => (masters m).sync) masters,
        congrArg (fun masters => (masters m).ranks) masters⟩)
      next clients
  cases move with
  | works _ here | syncs here | calls _ here | callsNonblocking _ here => exact quiet here rfl rfl rfl rfl rfl rfl
  | @arrives _ r job m here type more kind =>
    refine members.arrive placed here type rfl rfl (fun r' before => ?_) rfl rfl
    exact computed here rfl (fun _ => id) r' (before.imp_right fun same => ⟨same, .inl rfl⟩)
  | @callsLastNonblocking _ r job m _ here type one kind =>
    refine members.arrive placed here type rfl rfl (fun r' before => ?_) rfl rfl
    exact computed here rfl (fun _ => id) r' (before.imp_right fun same => ⟨same, .inl rfl⟩)
  | @callsLast _ r job m _ here type one kind =>
    refine members.arrive placed here type rfl rfl (fun r' before => ?_) rfl rfl
    exact computed here rfl (fun _ => id) r' (before.imp_right fun same => ⟨same, .inl rfl⟩)
  | @parks _ r job m here type more kind =>
    refine members.arrive placed here type rfl rfl (fun r' before => ?_) rfl rfl
    refine computed (u := (s.setMaster m ((s.masters m).arrive r)).setParked r true) here rfl
      (fun r'' at_park => ?_) r'
      (before.imp_right fun same => ⟨same, .inr (Function.update_self ..)⟩)
    by_cases same : r'' = r
    · subst same
      exact Function.update_self ..
    · exact (Function.update_of_ne same ..).trans at_park

theorem Move.gathered_compute {status : DpuError} (move : Move s (.compute w status) t) (members : s.Members)
    (placed : ∀ r, s.Placed r) (gathered : s.Gathered) : t.Gathered := by
  have quiet {u : State ρ κ ω} {pc : WorkerPc ρ κ} {r : ρ} {job : ThreadJob κ} (here : s.workers w = .run r job)
      (api : u.api = s.api) (workers : u.workers = s.workers) (parked : u.parked = s.parked)
      (masters : u.masters = s.masters) (next : u.nextMaster = s.nextMaster) (none : pc.master? = none) :
      (u.setWorker w pc).Gathered := by
    refine gathered.of_worker (by rw [State.setWorker_workers, workers]) parked next ?_ ?_ ?_ ?_ ?_
    · intro m r' _ head
      rw [State.HeadOf] at head ⊢
      exact api ▸ head
    · intro m
      change (u.masters m).sync = _ ∧ (u.masters m).ranks = _ ∧ (u.masters m).isNonblocking = _ ∧
        ((u.masters m).freed = _ ∨ _)
      rw [masters]
      exact ⟨rfl, rfl, rfl, .inl rfl⟩
    · rintro _ _ _ _ _ rfl
      cases none
    · intro _ _ _ _ _ at_waking
      rw [here] at at_waking
      cases at_waking
    · intro m holds
      rw [none] at holds
      cases holds
  cases move with
  | works _ here | syncs here | calls _ here | callsNonblocking _ here => exact quiet here rfl rfl rfl rfl rfl rfl
  | @arrives _ r job m here type more kind =>
    exact gathered.arrive members placed here type more rfl rfl
      (fun r' => by simp [State.setWorker, State.setMaster, kind])
      rfl rfl rfl
  | @parks _ r job m here type more kind =>
    refine gathered.arrive members placed here type more rfl rfl (fun r' => ?_) rfl rfl rfl
    by_cases same : r' = r <;> simp [State.setWorker, State.setMaster, kind, same]
  | @callsLastNonblocking _ r job m _ here type one kind =>
    exact gathered.last members placed here type one rfl rfl rfl rfl rfl rfl (by simp [kind]) (by simp)
  | @callsLast _ r job m _ here type one kind =>
    exact gathered.last members placed here type one rfl rfl rfl rfl rfl rfl (fun _ => ⟨_, rfl⟩) (by simp [kind])

theorem Move.members_worker (move : Move s (.worker w) t) (members : s.Members) : t.Members := by
  have plain {u : State ρ κ ω} {pc : WorkerPc ρ κ} (jobs : ∀ r, (u.api r).jobs = (s.api r).jobs)
      (workers : u.workers = s.workers) (parked : u.parked = s.parked)
      (masters : ∀ m, (u.masters m).sync = (s.masters m).sync ∧ (u.masters m).ranks = (s.masters m).ranks)
      (next : u.nextMaster = s.nextMaster) (clients : u.clients = s.clients)
      (still : ∀ r, (s.workers w).computed? = some r → pc.computed? = some r) : (u.setWorker w pc).Members :=
    members.mono
      (fun r => .inl ⟨jobs r, fun before => before.of_worker workers (fun at_park => parked ▸ at_park) (still r)⟩)
      masters next clients
  have pops {pc : WorkerPc ρ κ} {r' : ρ} {woken : Option κ} (done : (s.workers w).computed? = some r') :
      ((s.setApi r' ((s.api r').advanceToNextJob woken).2).setWorker w pc).Members := by
    refine members.mono (fun r => ?_) (fun m => ⟨rfl, rfl⟩) rfl rfl
    by_cases same : r = r'
    · subst same
      exact .inr (.inl (by simp [State.setWorker]))
    · refine .inl ⟨by simp [State.setWorker, same], fun before => before.of_worker rfl id fun at_r => ?_⟩
      exact absurd (Option.some.inj (at_r.symm.trans done)) same
  have releases (woken : Option κ) (m m' : Nat) :
    ((s.releaseMaster woken m).masters m').sync = (s.masters m').sync ∧
      ((s.releaseMaster woken m).masters m').ranks = (s.masters m').ranks := by
    by_cases same : m' = m
    · subst same
      simp [State.releaseMaster]
    · simp [State.releaseMaster, same, State.setApi]
  cases move with
  | takes here =>
    exact plain (fun _ => rfl) rfl rfl (fun _ => ⟨rfl, rfl⟩) rfl rfl (by simp [here, WorkerPc.computed?])
  | detaches here => exact pops (by rw [here]; rfl)
  | advances here => exact pops (by rw [here]; rfl)
  | @inserts _ r next m here =>
    unfold State.insertRankList
    split_ifs <;>
      exact plain (fun _ => rfl) rfl rfl (fun _ => ⟨rfl, rfl⟩) rfl rfl (by simp [here, WorkerPc.computed?])
  | leaves here =>
    exact plain (fun _ => rfl) rfl rfl (fun _ => ⟨rfl, rfl⟩) rfl rfl (by simp [here, WorkerPc.computed?])
  | @leavesMaster _ m woken here =>
    exact plain (fun r => (s.releaseMaster_api woken m r).1) rfl rfl (releases woken m) rfl rfl
      (by simp [here, WorkerPc.computed?])
  | @releases _ r job status m woken here =>
    exact plain (fun r => (s.releaseMaster_api woken m r).1) rfl rfl (releases woken m) rfl rfl
      (by simp [here, WorkerPc.computed?])
  | @wakesRank _ r' job status m other others woken here =>
    refine members.mono (fun r => ?_) (fun m => ⟨rfl, rfl⟩) rfl rfl
    by_cases same : r = other
    · subst same
      exact .inr (.inl (by simp [State.setWorker, State.wakeRank_api]))
    · refine .inl ⟨by simp [State.setWorker, State.wakeRank_api, same], fun before => ?_⟩
      refine before.of_worker rfl (fun at_park => ?_) (by simp [here, WorkerPc.computed?])
      rw [State.wakeRank, State.setParked_parked, Function.update_of_ne same]
      exact at_park
  | @updatesStatus _ r' job status woken here =>
    obtain ⟨syncs, dropped⟩ := s.updateStatus_eq r' status woken
    rw [dropped]
    refine members.mono (fun r => ?_) (fun m => ?_) rfl rfl
    · by_cases same : r = r'
      · subst same
        exact .inr (.inr (by simp [State.setWorker, RankApi.drained]))
      · refine .inl ⟨by simp [State.setWorker, same], fun before => before.of_worker rfl id fun done => ?_⟩
        rw [here] at done
        exact absurd (Option.some.inj done).symm same
    · change (abandon _ s.masters m).sync = _ ∧ (abandon _ s.masters m).ranks = _
      unfold abandon
      split_ifs <;> exact ⟨rfl, rfl⟩

theorem Move.gathered_worker (move : Move s (.worker w) t) (placed : ∀ r, s.Placed r) (gathered : s.Gathered) :
    t.Gathered := by
  -- FIFOs of ranks that are not parked may change
  have keeps {u : State ρ κ ω} {pc : WorkerPc ρ κ}
      (api : ∀ r, s.parked r = true → (u.api r).jobs = (s.api r).jobs) (m : Nat) (r : ρ)
        (at_park : s.parked r = true)
      (head : s.HeadOf m r) : (u.setWorker w pc).HeadOf m r := by
    obtain ⟨job, first, type⟩ := head
    refine ⟨job, ?_, type⟩
    rw [← api r at_park] at first
    exact first
  have apart {r : ρ} {job : ThreadJob κ} (hand : (s.workers w).hand? = some (r, job)) {r' : ρ}
      (at_park : s.parked r' = true) : r' ≠ r := by
    rintro rfl
    exact Bool.false_ne_true (((placed r').of_hand hand).2.2.2.symm.trans at_park)
  have same {pc : WorkerPc ρ κ} (m : Nat) : (s.masters m).sync = (s.masters m).sync ∧
      (s.masters m).ranks = (s.masters m).ranks ∧ (s.masters m).isNonblocking = (s.masters m).isNonblocking ∧
      ((s.masters m).freed = (s.masters m).freed ∨ (s.workers w).master? = some m ∧ pc.master? = none) :=
    ⟨rfl, rfl, rfl, .inl rfl⟩
  have releases {m : Nat} {woken : Option κ} {pc : WorkerPc ρ κ} (holds : (s.workers w).master? = some m)
      (none : pc.master? = none) (m' : Nat) :
      ((s.releaseMaster woken m).masters m').sync = (s.masters m').sync ∧
        ((s.releaseMaster woken m).masters m').ranks = (s.masters m').ranks ∧
        ((s.releaseMaster woken m).masters m').isNonblocking = (s.masters m').isNonblocking ∧
        (((s.releaseMaster woken m).masters m').freed = (s.masters m').freed ∨
          (s.workers w).master? = some m' ∧ pc.master? = .none) := by
    by_cases at_m : m' = m
    · subst at_m
      simp [State.releaseMaster, holds, none]
    · simp [State.releaseMaster, State.setApi, at_m]
  cases move with
  | takes here =>
    exact gathered.of_worker rfl rfl rfl (keeps fun _ _ => rfl) same (by simp) (by simp [here])
      (by simp [WorkerPc.master?])
  | @detaches _ r job m woken here =>
    refine gathered.of_worker rfl rfl rfl (keeps fun r' at_park => ?_) same (by simp) (by simp [here])
      (by simp [here, WorkerPc.master?])
    simp [apart (by rw [here]; rfl) at_park]
  | @advances _ r job woken here =>
    refine gathered.of_worker rfl rfl rfl (keeps fun r' at_park => ?_) same ?_ (by simp [here]) ?_
    · simp [apart (by rw [here]; rfl) at_park]
    all_goals cases ((s.api r).advanceToNextJob woken).1 <;> simp [WorkerPc.master?]
  | @inserts _ r next m here =>
    unfold State.insertRankList
    split_ifs <;>
      exact gathered.of_worker rfl rfl rfl (keeps fun _ _ => rfl) same (by simp) (by simp [here])
        (by simp [here, WorkerPc.master?])
  | leaves here =>
    exact gathered.of_worker rfl rfl rfl (keeps fun _ _ => rfl) same (by simp) (by simp [here])
      (by simp [WorkerPc.master?])
  | @leavesMaster _ m woken here =>
    exact gathered.of_worker rfl rfl rfl (keeps fun r' _ => (s.releaseMaster_api woken m r').1)
      (releases (by rw [here]; rfl) rfl) (by simp) (by simp [here]) (by simp [WorkerPc.master?])
  | @releases _ r job status m woken here =>
    refine gathered.of_worker rfl rfl rfl (keeps fun r' _ => (s.releaseMaster_api woken m r').1)
      (releases (by rw [here]; rfl) rfl) (by simp) (fun _ _ _ _ others at_waking => ?_) (by simp [WorkerPc.master?])
    rw [here] at at_waking
    exact (WorkerPc.waking.inj at_waking).2.2.2.2.symm
  | wakesRank here => exact gathered.wakesRank here
  | @updatesStatus _ r job status woken here =>
    obtain ⟨syncs, dropped⟩ := s.updateStatus_eq r status woken
    rw [dropped]
    refine gathered.of_worker rfl rfl rfl (keeps fun r' at_park => ?_) (fun m => ?_) (by simp) (by simp [here])
      (by simp [WorkerPc.master?])
    · simp [apart (by rw [here]; rfl) at_park]
    · change (abandon _ s.masters m).sync = _ ∧ (abandon _ s.masters m).ranks = _ ∧
        (abandon _ s.masters m).isNonblocking = _ ∧ ((abandon _ s.masters m).freed = _ ∨ _)
      unfold abandon
      split_ifs <;> exact ⟨rfl, rfl, rfl, .inl rfl⟩

/-- A client that adds jobs changes the head of no parked rank. -/
theorem State.Gathered.adds (gathered : s.Gathered) {pc : ClientPc ρ κ} (r : ρ) (jobs : List (ThreadJob κ)) :
    ((s.addJobs r jobs).setClient c pc).Gathered := by
  have frame : s.addJobs r jobs = _ := s.addJobs_eq r jobs
  refine gathered.mono (fun m r' _ head => ?_) (by rw [frame]; rfl)
    (fun m _ => by rw [frame]; exact ⟨rfl, rfl, rfl, .inl⟩) (by rw [frame]; rfl) ?_ ?_ ?_
  · obtain ⟨job, first, type⟩ := head
    refine ⟨job, ?_, type⟩
    change ((s.addJobs r jobs).api r').jobs.head? = some job
    rw [State.addJobs_jobs, List.head?_append, first, Option.some_or]
  all_goals rw [frame]
  · exact fun _ _ _ _ _ _ here => here
  · exact fun _ _ _ _ _ _ here _ => here
  · exact fun _ _ holds => ⟨holds, rfl⟩

theorem State.Gathered.quiet (gathered : s.Gathered) (frame : ClientFrame s t) (masters : t.masters = s.masters)
    (next : t.nextMaster = s.nextMaster) : t.Gathered := by
  refine gathered.mono (fun m r _ head => frame.headOf.mpr head) frame.parked
    (fun m _ => by rw [masters]; exact ⟨rfl, rfl, rfl, .inl⟩) next ?_ ?_ ?_
  all_goals rw [frame.workers]
  · exact fun _ _ _ _ _ _ here => here
  · exact fun _ _ _ _ _ _ here _ => here
  · exact fun _ _ holds => ⟨holds, by rw [masters]⟩

theorem Move.inv {a : Action ρ κ ω} (move : Move s a t) (alive : ∀ q, none ∉ s.queue q) (inv : s.Inv) : t.Inv := by
  have parked (w : ω) (r : ρ) (job : ThreadJob κ) (status : DpuError) (m : Nat) (others : List ρ)
      (here : s.workers w = .waking r job status m others) (other : ρ) (member : other ∈ others) :
          s.parked other = true :=
    ((inv.gathered.waking w r job status m others here).2 other member).1
  have once := move.once inv.placed alive parked inv.once
  have clients := move.clients_ok inv.clients
  cases a with
  | begin c call =>
    obtain ⟨frame, masters, next⟩ := move.begin_frame
    have others (c' : κ) (other : c' ≠ c) : t.clients c' = s.clients c' := by
      obtain ⟨idle⟩ := move
      split_ifs <;> exact Function.update_of_ne other ..
    have own : (t.clients c).toAdd = [] := by
      obtain ⟨idle⟩ := move
      simp [ClientPc.toAdd]
    exact ⟨clients, fun r => (frame.samePlace r).placed (inv.placed r), once,
      inv.members.quiet frame masters next others (by simp [own]), inv.gathered.quiet frame masters next⟩
  | client c =>
    cases move.client_case (inv.clients c) with
    | quiet frame masters next others own =>
      exact ⟨clients, fun r => (frame.samePlace r).placed (inv.placed r), once,
        inv.members.quiet frame masters next others own, inv.gathered.quiet frame masters next⟩
    | setsMaster frame masters next others ranks toAdd =>
      exact ⟨clients, fun r => (frame.samePlace r).placed (inv.placed r), once,
        inv.members.setsMaster frame masters rfl rfl next others ranks toAdd,
        inv.gathered.setsMaster frame masters rfl rfl rfl next⟩
    | @adds call r jobs rest here same =>
      subst same
      have own := inv.clients c
      rw [here] at own
      exact ⟨clients, State.Placed.addJobs (own.2 (r, jobs) List.mem_cons_self) inv.placed, once,
        inv.members.adds (inv.clients c) here, inv.gathered.adds r jobs⟩
  | compute w status =>
    exact ⟨clients, move.placed_compute inv.placed, once, move.members_compute inv.members inv.placed,
      move.gathered_compute inv.members inv.placed inv.gathered⟩
  | worker w =>
    exact ⟨clients, move.placed_worker inv.placed inv.once parked, once, move.members_worker inv.members,
      move.gathered_worker inv.placed inv.gathered⟩

theorem Step.inv {a : Action ρ κ ω} (inv : s.Inv) (step : Step s a t) : t.Inv :=
  step.move.inv step.alive inv

end

end Upmem.Jobs
