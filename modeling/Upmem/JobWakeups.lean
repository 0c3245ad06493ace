import Upmem.JobPlaces

set_option linter.unusedSectionVars false

namespace Upmem.Jobs
open Transitions
variable {ρ κ ω : Type} [DecidableEq ρ] [DecidableEq κ] [DecidableEq ω]

/-- A client sleeps on `available_jobs_cond` of a rank and no signal is pending for it. -/
def State.SleepsOn (s : State ρ κ ω) (c : κ) (r : ρ) : Prop :=
  c ∈ (s.api r).waiters ∧ ∃ g need rest, s.clients c = .asleep g ∧ g.todo = (r, need) :: rest

def NoLostWakeup (s : State ρ κ ω) : Prop :=
  ∀ c r, s.SleepsOn c r → (s.api r).availableJobs = [] ∧ (s.api r).jobError = .ok

/-- The rank of which a worker is about to release job slots. -/
def State.released? (s : State ρ κ ω) : WorkerPc ρ κ → Option ρ
  | .detaching r _ _ => some r
  | .detached (some m) => some (s.masters m).slotOwner
  | .waking _ _ _ _ (other :: _) => some other
  | .waking _ _ _ m [] => some (s.masters m).slotOwner
  | .done r _ _ => some r
  | _ => none

/-- Job slots are released, and jobs are dropped, while at most one client
sleeps, and slots are given back by `dpu_thread_job_unget_jobs` while none does. -/
structure WakesAll (τ : Transition (State ρ κ ω) (Action ρ κ ω)) : Prop where
  releases : ∀ w r, τ.action = .worker w → τ.before.released? (τ.before.workers w) = some r →
    (τ.before.api r).waiters.length ≤ 1
  ungets : ∀ c r slots rest, τ.action = .client c → τ.before.clients c = .ungetting ((r, slots) :: rest) →
    slots ≠ [] → (τ.before.api r).waiters = []

/-- No client sleeps for nothing on a rank. -/
def RankApi.Awake (api : RankApi κ) : Prop := api.waiters ≠ [] → api.availableJobs = [] ∧ api.jobError = .ok

theorem RankApi.getJobs_suffix (need : Nat) (hand : List Nat) (api : RankApi κ) :
    (api.getJobs need hand).2.availableJobs <:+ api.availableJobs := by
  induction need generalizing hand api with
  | zero => exact List.suffix_rfl
  | succ need ih =>
    unfold RankApi.getJobs
    split_ifs
    · exact List.suffix_rfl
    · split
      · exact List.suffix_rfl
      next slot rest available =>
        rw [available]
        exact (ih (hand ++ [slot]) { api with availableJobs := rest, availableJobsLength := _ }).trans
          (List.suffix_cons slot rest)

/-- After a signal nobody is left asleep exactly if at most one thread was. -/
theorem signal_eq_nil {woken : Option κ} {waiters : List κ} (wakes : Wakes waiters woken) :
    signal woken waiters = [] ↔ waiters.length ≤ 1 := by
  cases woken with
  | none => simp [signal, show waiters = [] from wakes]
  | some thread =>
    have member : thread ∈ waiters := wakes
    have positive := List.length_pos_of_mem member
    rw [signal, Option.elim_some, ← List.length_eq_zero_iff, List.length_erase_of_mem member]
    omega

theorem RankApi.Awake.release_iff {api : RankApi κ} (awake : api.Awake) {woken : Option κ}
    (wakes : Wakes api.waiters woken) (slot : Nat) :
    (api.releaseJobSlotUnlocked woken slot).Awake ↔ api.waiters.length ≤ 1 := by
  unfold RankApi.Awake RankApi.releaseJobSlotUnlocked
  by_cases empty : api.availableJobs = []
  · rw [if_pos empty, ← signal_eq_nil wakes]
    simp [empty]
  · have nobody : api.waiters = [] := by
      by_contra some
      exact empty (awake some).1
    simp [nobody, empty]

theorem RankApi.Awake.drained_iff {api : RankApi κ} (awake : api.Awake) {woken : Option κ}
    (wakes : Wakes api.waiters woken) (some : api.jobs ≠ []) {status : DpuError} (failed : status ≠ .ok) :
    (RankApi.drained woken { api with jobError := status }).Awake ↔ api.waiters.length ≤ 1 := by
  unfold RankApi.Awake RankApi.drained
  by_cases empty : api.availableJobs = []
  · simp only [empty, some, ne_eq, not_false_eq_true, and_self, if_true, failed, and_false, imp_false, not_not]
    exact signal_eq_nil wakes
  · have nobody : api.waiters = [] := by
      by_contra some
      exact empty (awake some).1
    simp [nobody, empty]

/-- The waiters of a rank are asleep on it. -/
structure State.Sleepers (s : State ρ κ ω) : Prop where
  asleep : ∀ r, ∀ c ∈ (s.api r).waiters, ∃ g need rest, s.clients c = .asleep g ∧ g.todo = (r, need) :: rest
  nodup : ∀ r, (s.api r).waiters.Nodup

section
variable {s t : State ρ κ ω} {a : Action ρ κ ω}

theorem State.Sleepers.noLostWakeup (sleepers : s.Sleepers) : NoLostWakeup s ↔ ∀ r, (s.api r).Awake := by
  constructor
  · intro all r some
    obtain ⟨c, member⟩ := List.exists_mem_of_ne_nil _ some
    exact all c r ⟨member, sleepers.asleep r c member⟩
  · exact fun all c r sleeps => all r (List.ne_nil_of_mem sleeps.1)

theorem State.Sleepers.mono (sleepers : s.Sleepers) (waiters : ∀ r, (t.api r).waiters.Sublist (s.api r).waiters)
    (clients : ∀ r, ∀ c ∈ (t.api r).waiters, t.clients c = s.clients c) : t.Sleepers where
  asleep r c member := by
    rw [clients r c member]
    exact sleepers.asleep r c ((waiters r).subset member)
  nodup r := (sleepers.nodup r).sublist (waiters r)

theorem signal_sublist (woken : Option κ) (waiters : List κ) : (signal woken waiters).Sublist waiters := by
  cases woken with
  | none => exact List.Sublist.refl _
  | some thread => exact List.erase_sublist

theorem RankApi.release_waiters (woken : Option κ) (slot : Nat) (api : RankApi κ) :
    (api.releaseJobSlotUnlocked woken slot).waiters.Sublist api.waiters := by
  unfold RankApi.releaseJobSlotUnlocked
  dsimp only
  split_ifs
  · exact signal_sublist _ _
  · exact List.Sublist.refl _

theorem RankApi.advance_waiters (woken : Option κ) (api : RankApi κ) :
    (api.advanceToNextJob woken).2.waiters.Sublist api.waiters := by
  unfold RankApi.advanceToNextJob
  split
  · exact List.Sublist.refl _
  next job _ _ => exact RankApi.release_waiters woken job.slot api

theorem RankApi.drained_waiters (woken : Option κ) (api : RankApi κ) :
    (api.drained woken).waiters.Sublist api.waiters := by
  unfold RankApi.drained
  dsimp only
  split_ifs
  · exact signal_sublist _ _
  · exact List.Sublist.refl _

theorem RankApi.Awake.advance_iff {api : RankApi κ} (awake : api.Awake) {woken : Option κ}
    (wakes : Wakes api.waiters woken) {job : ThreadJob κ} (head : api.jobs.head? = some job) :
    (api.advanceToNextJob woken).2.Awake ↔ api.waiters.length ≤ 1 := by
  unfold RankApi.advanceToNextJob
  cases jobs : api.jobs with
  | nil =>
    rw [jobs] at head
    cases head
  | cons job rest => exact awake.release_iff wakes job.slot

theorem forall_awake_update {api : ρ → RankApi κ} (awake : ∀ r, (api r).Awake) (r : ρ) (value : RankApi κ) :
    (∀ r', (Function.update api r value r').Awake) ↔ value.Awake := by
  refine ⟨fun all => ?_, fun own r' => ?_⟩
  · have own := all r
    rwa [Function.update_self] at own
  · by_cases same : r' = r
    · subst same
      rwa [Function.update_self]
    · rw [Function.update_of_ne same]
      exact awake r'

theorem Move.awake_worker {w : ω} (move : Move s (.worker w) t) (inv : s.Inv) (awake : ∀ r, (s.api r).Awake) :
    (∀ r, (t.api r).Awake) ↔ ∀ r, s.released? (s.workers w) = some r → (s.api r).waiters.length ≤ 1 := by
  have only {pc : WorkerPc ρ κ} (here : s.workers w = pc) {r : ρ} (rank : s.released? pc = some r) :
      (∀ r, s.released? (s.workers w) = some r → (s.api r).waiters.length ≤ 1) ↔ (s.api r).waiters.length ≤ 1 := by
    rw [here, rank]
    exact ⟨fun all => all r rfl, fun one _ same => by cases same; exact one⟩
  have quiet {pc : WorkerPc ρ κ} (here : s.workers w = pc) (none : s.released? pc = none) (same : t.api = s.api) :
      (∀ r, (t.api r).Awake) ↔ ∀ r, s.released? (s.workers w) = some r → (s.api r).waiters.length ≤ 1 := by
    rw [here, none, same]
    exact iff_of_true awake fun _ some => by cases some
  have head {r : ρ} {job : ThreadJob κ} (hand : (s.workers w).hand? = some (r, job)) :
      (s.api r).jobs.head? = some job :=
    ((inv.placed r).of_hand hand).1
  cases move with
  | takes here => exact quiet here rfl rfl
  | leaves here => exact quiet here rfl rfl
  | @inserts _ r next m here =>
    refine quiet here rfl ?_
    unfold State.insertRankList
    split_ifs <;> rfl
  | @detaches _ r job m woken here wakes =>
    rw [only here rfl]
    exact (forall_awake_update awake r _).trans ((awake r).advance_iff wakes (head (by rw [here]; rfl)))
  | @advances _ r job woken here wakes =>
    rw [only here rfl]
    exact (forall_awake_update awake r _).trans ((awake r).advance_iff wakes (head (by rw [here]; rfl)))
  | @leavesMaster _ m woken here wakes =>
    rw [only here rfl]
    exact (forall_awake_update awake _ _).trans ((awake _).release_iff wakes _)
  | @releases _ r job status m woken here wakes =>
    rw [only here rfl]
    exact (forall_awake_update awake _ _).trans ((awake _).release_iff wakes _)
  | @wakesRank _ r job status m other others woken here wakes =>
    obtain ⟨_, all⟩ := inv.gathered.waking w r job status m _ here
    obtain ⟨_, first, first_eq, _⟩ := all other List.mem_cons_self
    rw [only here rfl]
    exact (forall_awake_update awake other _).trans ((awake other).advance_iff wakes first_eq)
  | @updatesStatus _ r job status woken here failed wakes =>
    obtain ⟨syncs, dropped⟩ := s.updateStatus_eq r status woken
    have some : (s.api r).jobs ≠ [] := by
      intro empty
      have first := head (show (s.workers w).hand? = some (r, job) by rw [here]; rfl)
      rw [empty] at first
      cases first
    rw [only here rfl, dropped]
    exact (forall_awake_update awake r _).trans ((awake r).drained_iff wakes some failed)

theorem RankApi.Awake.getJobs {api api' : RankApi κ} (awake : api.Awake) {need : Nat} {hand : List Nat}
    {result : GetResult} (taken : api.getJobs need hand = (result, api')) : api'.Awake := by
  have suffix := RankApi.getJobs_suffix need hand api
  obtain ⟨_, waiters, jobError⟩ := RankApi.getJobs_same need hand api
  rw [taken] at suffix waiters jobError
  dsimp only at suffix waiters jobError
  intro some
  rw [waiters] at some
  obtain ⟨empty, fine⟩ := awake some
  rw [empty, List.suffix_nil] at suffix
  exact ⟨suffix, jobError.trans fine⟩

theorem RankApi.Awake.unget_iff {api : RankApi κ} (awake : api.Awake) (slots : List Nat) :
    (api.ungetJobs slots).Awake ↔ (slots ≠ [] → api.waiters = []) := by
  rw [RankApi.ungetJobs_eq]
  cases slots with
  | nil => exact iff_of_true (by simpa [RankApi.Awake] using awake) fun some => absurd rfl some
  | cons slot slots => simp [RankApi.Awake]

theorem Move.awake_client {c : κ} (move : Move s (.client c) t) (awake : ∀ r, (s.api r).Awake) :
    (∀ r, (t.api r).Awake) ↔ ∀ r slots rest, s.clients c = .ungetting ((r, slots) :: rest) →
      slots ≠ [] → (s.api r).waiters = [] := by
  have quiet (kind : ∀ entry rest, s.clients c ≠ .ungetting (entry :: rest)) (still : ∀ r, (t.api r).Awake) :
      (∀ r, (t.api r).Awake) ↔ ∀ r slots rest, s.clients c = .ungetting ((r, slots) :: rest) →
        slots ≠ [] → (s.api r).waiters = [] :=
    iff_of_true still fun r slots rest here => absurd here (kind _ _)
  have at_rank {r : ρ} {value : RankApi κ} (own : value.Awake) (r' : ρ) :
      (Function.update s.api r value r').Awake :=
    (forall_awake_update awake r value).mpr own r'
  cases move with
  | gets here _ taken | fails here _ taken =>
    exact quiet (by simp [here]) (at_rank ((awake _).getJobs taken))
  | @sleeps _ g r need rest need' hand api here _ sleeps =>
    obtain ⟨_, _, empty, fine⟩ := RankApi.getJobs_sleeps sleeps
    obtain ⟨_, _, jobError⟩ := RankApi.getJobs_same need g.hand (s.api r)
    rw [sleeps] at jobError
    exact quiet (by simp [here]) (at_rank fun _ => ⟨empty, jobError.trans fine⟩)
  | @wakes _ g r need rest here _ =>
    refine quiet (by simp [here]) (at_rank fun some => awake r ?_)
    exact fun empty => some (by simp [empty])
  | @ungets _ r slots rest here =>
    refine (forall_awake_update awake r _).trans (((awake r).unget_iff slots).trans ?_)
    rw [here]
    refine ⟨fun own r' slots' rest' same => ?_, fun all => all r slots rest rfl⟩
    obtain ⟨⟨rfl, rfl⟩, rfl⟩ : (r = r' ∧ slots = slots') ∧ rest = rest' := by simpa using same
    exact own
  | @adds _ call r jobs rest here =>
    have own : RankApi.Awake { s.api r with jobs := (s.api r).jobs ++ jobs } := awake r
    refine quiet (by simp [here]) ?_
    rw [State.addJobs_eq]
    exact at_rank own
  | @resets _ r rest here => exact quiet (by simp [here]) (at_rank fun some => ⟨(awake r some).1, rfl⟩)
  | unget here | choosesMaster here | setsJobs here | setsMaster here | added here | returns here | reset here =>
    exact quiet (by simp [here]) awake

theorem Step.awake_iff (step : Step s a t) (inv : s.Inv) (awake : ∀ r, (s.api r).Awake) :
    (∀ r, (t.api r).Awake) ↔ WakesAll ⟨s, a, t⟩ := by
  have move := step.move
  cases a with
  | begin c call =>
    obtain ⟨idle⟩ := move
    refine iff_of_true ?_ ⟨fun _ _ same => (by cases same), fun _ _ _ _ same => (by cases same)⟩
    split_ifs <;> exact awake
  | compute w status =>
    refine iff_of_true ?_ ⟨fun _ _ same => (by cases same), fun _ _ _ _ same => (by cases same)⟩
    cases move <;> exact awake
  | client c =>
    rw [move.awake_client awake]
    refine ⟨fun all => ⟨fun _ _ same => (by cases same),
      ?_⟩, fun good r slots rest => good.ungets c r slots rest rfl⟩
    rintro _ r slots rest ⟨⟩
    exact all r slots rest
  | worker w =>
    rw [move.awake_worker inv awake]
    refine ⟨fun all => ⟨?_, fun _ _ _ _ same => (by cases same)⟩, fun good r => good.releases w r rfl⟩
    rintro _ r ⟨⟩
    exact all r

theorem Move.worker_waiters {w : ω} (move : Move s (.worker w) t) (r : ρ) :
    (t.api r).waiters.Sublist (s.api r).waiters := by
  have update {r' : ρ} {value : RankApi κ} (own : value.waiters.Sublist (s.api r').waiters) :
      (Function.update s.api r' value r).waiters.Sublist (s.api r).waiters := by
    by_cases same : r = r'
    · subst same
      rwa [Function.update_self]
    · rw [Function.update_of_ne same]
  cases move with
  | takes | leaves => exact List.Sublist.refl _
  | @inserts _ r' next m here =>
    unfold State.insertRankList
    split_ifs <;> exact List.Sublist.refl _
  | detaches => exact update (RankApi.advance_waiters _ _)
  | advances => exact update (RankApi.advance_waiters _ _)
  | wakesRank => exact update (RankApi.advance_waiters _ _)
  | leavesMaster => exact update (RankApi.release_waiters _ _ _)
  | releases => exact update (RankApi.release_waiters _ _ _)
  | @updatesStatus _ r' job status woken here =>
    obtain ⟨syncs, dropped⟩ := s.updateStatus_eq r' status woken
    rw [dropped]
    exact update (RankApi.drained_waiters woken { s.api r' with jobError := status })

theorem Move.sleepers (move : Move s a t) (sleepers : s.Sleepers) : t.Sleepers := by
  have elsewhere {c : κ} {pc : ClientPc ρ κ} (here : s.clients c = pc) (awake : ∀ g, pc ≠ .asleep g) (r : ρ) :
      c ∉ (s.api r).waiters := by
    intro member
    obtain ⟨g, _, _, asleep, _⟩ := sleepers.asleep r c member
    exact awake g (here.symm.trans asleep)
  have quiet {c : κ} {u : State ρ κ ω} {pc pc' : ClientPc ρ κ} (here : s.clients c = pc) (awake : ∀ g,
    pc ≠ .asleep g)
      (clients : u.clients = Function.update s.clients c pc')
          (waiters : ∀ r, (u.api r).waiters = (s.api r).waiters) :
      u.Sleepers := by
    refine sleepers.mono (fun r => (waiters r).symm ▸ List.Sublist.refl _) fun r c' member => ?_
    have other : c' ≠ c := by
      rintro rfl
      exact elsewhere here awake r (waiters r ▸ member)
    rw [clients, Function.update_of_ne other]
  have update {r' : ρ} {value : RankApi κ} (own : value.waiters = (s.api r').waiters) (r : ρ) :
      (Function.update s.api r' value r).waiters = (s.api r).waiters := by
    by_cases same : r = r'
    · subst same
      rwa [Function.update_self]
    · rw [Function.update_of_ne same]
  cases a with
  | worker w => exact sleepers.mono move.worker_waiters fun _ c _ => congrFun move.worker_frame.clients c
  | compute w status =>
    refine sleepers.mono (fun r => ?_) fun _ c _ => congrFun move.compute_frame.clients c
    cases move <;> exact List.Sublist.refl _
  | begin c call =>
    obtain ⟨idle⟩ := move
    refine @quiet c _ _ (.getting (.start call)) idle (by simp) ?_ ?_ <;> split_ifs
      <;> simp [State.setSync, State.setClient]
  | client c =>
    cases move with
    | gets here _ taken => exact quiet here (by simp) rfl (update (RankApi.SameJobs.of_getJobs taken).2)
    | fails here _ taken => exact quiet here (by simp) rfl (update (RankApi.SameJobs.of_getJobs taken).2)
    | ungets here => exact quiet here (by simp) rfl (update (by rw [RankApi.ungetJobs_eq]))
    | resets here => exact quiet here (by simp) rfl (update rfl)
    | @adds _ call r jobs rest here =>
      rw [State.addJobs_eq]
      exact quiet here (by simp) rfl (update rfl)
    | setsMaster here => exact quiet here (by simp) rfl fun _ => rfl
    | unget here | choosesMaster here | setsJobs here | added here | returns here | reset here =>
      exact quiet here (by simp) rfl fun _ => rfl
    | @sleeps _ g r need rest need' hand api here todo taken =>
      have waiters := (RankApi.SameJobs.of_getJobs taken).2
      have absent := elsewhere here (by simp)
      constructor
      · intro r' c' member
        by_cases at_rank : r' = r
        · subst at_rank
          rw [State.setClient, State.setApi_api, Function.update_self, waiters, List.mem_append,
            List.mem_singleton] at member
          by_cases own : c' = c
          · subst own
            exact ⟨_, need', rest, by rw [State.setClient_clients, Function.update_self], rfl⟩
          · rw [State.setClient_clients, Function.update_of_ne own]
            exact sleepers.asleep r' c' (member.resolve_right own)
        · rw [State.setClient, State.setApi_api, Function.update_of_ne at_rank] at member
          have other : c' ≠ c := by
            rintro rfl
            exact absent r' member
          rw [State.setClient_clients, Function.update_of_ne other]
          exact sleepers.asleep r' c' member
      · intro r'
        by_cases at_rank : r' = r
        · subst at_rank
          rw [State.setClient, State.setApi_api, Function.update_self, waiters, List.nodup_append]
          refine ⟨sleepers.nodup r', List.nodup_singleton c, fun c' old c'' new same => ?_⟩
          exact absent r' (List.mem_singleton.mp new ▸ same ▸ old)
        · rw [State.setClient, State.setApi_api, Function.update_of_ne at_rank]
          exact sleepers.nodup r'
    | @wakes _ g r need rest here todo =>
      refine sleepers.mono (fun r' => ?_) fun r' c' member => ?_
      · by_cases at_rank : r' = r
        · subst at_rank
          rw [State.setClient, State.setApi_api, Function.update_self]
          exact List.erase_sublist
        · rw [State.setClient, State.setApi_api, Function.update_of_ne at_rank]
      · have other : c' ≠ c := by
          rintro rfl
          by_cases at_rank : r' = r
          · subst at_rank
            rw [State.setClient, State.setApi_api, Function.update_self] at member
            exact (sleepers.nodup r').not_mem_erase member
          · rw [State.setClient, State.setApi_api, Function.update_of_ne at_rank] at member
            obtain ⟨g', need', rest', asleep, todo'⟩ := sleepers.asleep r' c' member
            obtain rfl := ClientPc.asleep.inj (here.symm.trans asleep)
            rw [todo] at todo'
            exact at_rank (Prod.mk.inj (List.cons.inj todo').1).1.symm
        rw [State.setClient_clients, Function.update_of_ne other]
        rfl

theorem State.Created.sleepers (created : s.Created) : s.Sleepers where
  asleep r c member := by simp [(created.api r).waiters] at member
  nodup r := by simp [(created.api r).waiters]

end

/-- The threads of a rank with three clients and one worker. -/
def State.crowd : State Unit (Fin 3) Unit where
  api _ :=
    { nrJobs := 2, queueIdx := 0, availableJobs := [1, 0], availableJobsLength := 2, jobs := [], jobError := .ok
      waiters := [] }
  queue _ := []
  clients _ := .idle
  workers _ := .idle
  workerQueue _ := 0
  syncs _ := .init []
  masters _ :=
    { slotOwner := (), slot := 0, ranks := [], isNonblocking := false, sync := .init [], freed := false
      abandoned := false }
  nextMaster := 0
  parked _ := false

theorem State.crowd_created : State.crowd.Created :=
  ⟨fun _ => ⟨rfl, rfl, rfl, rfl, rfl⟩, fun _ => rfl, fun _ => rfl, fun _ => rfl, rfl, fun _ => rfl⟩

theorem launch_accepted (synchronous : Bool) (flags : CallbackFlags)
    (callback : (if synchronous then CallKind.synchronous else .async) = .callback flags) :
    (flags.isSync && flags.isNonblocking) = false := by
  cases synchronous <;> simp at callback

/-- A call on the rank that is no callback. -/
def crowdCall (synchronous : Bool) : Call Unit where
  ranks := [()]
  kind := if synchronous then .synchronous else .async
  nodup := oneRank_nodup
  some := oneRank_some
  accepted := launch_accepted synchronous

/-- A synchronous call holds both slots when two other clients come; both
slots are released before the first of them wakes up and takes one. -/
theorem crowd_run : ∃ s, LiveRun State.crowd s ∧ (s.api ()).waiters = [2] ∧ (s.api ()).availableJobs = [0] ∧
    ∃ g, s.clients 2 = .asleep g ∧ g.todo = [((), 1)] := by
  have run : LiveRun State.crowd State.crowd := ⟨State.crowd_created, ⟨_, .start⟩, fun q => by simp [State.crowd]⟩
  have run := run.next (a := .begin 0 (crowdCall true)) (.begin rfl) (by simp)
  have run := run.next (a := .client 0) (.gets rfl rfl rfl) (by simp)
  have run := run.next (a := .client 0) (.setsJobs rfl rfl rfl) (by simp)
  have run := run.next (a := .client 0) (.adds rfl) (by simp)
  have run := run.next (a := .client 0) (.added rfl) (by simp)
  have run := run.next (a := .begin 1 (crowdCall false)) (.begin rfl) (by simp)
  have run := run.next (a := .client 1) (.sleeps rfl rfl rfl) (by simp)
  have run := run.next (a := .begin 2 (crowdCall false)) (.begin rfl) (by simp)
  have run := run.next (a := .client 2) (.sleeps rfl rfl rfl) (by simp)
  have run := run.next (a := .worker ()) (.takes rfl (show _ = _ from rfl)) (fun _ _ _ _ _ _ _ => nofun)
  have run := run.next (a := .compute () .ok) (.works .ok rfl rfl) (by simp)
  have run := run.next (a := .worker ()) (.advances (show _ = _ from rfl) (show Wakes [1, 2] (some 1) by decide))
    (fun _ _ _ _ _ _ _ => nofun)
  have run := run.next (a := .compute () .ok) (.syncs (show _ = _ from rfl) rfl) (by simp)
  have run := run.next (a := .worker ()) (.advances (show _ = _ from rfl) (show Wakes [2] (some 2) by decide))
    (fun _ _ _ _ _ _ _ => nofun)
  have run := run.next (a := .client 1) (.wakes rfl rfl) (by simp)
  have run := run.next (a := .client 1) (.gets rfl rfl rfl) (by simp)
  exact ⟨_, run, rfl, rfl, _, rfl, rfl⟩

section
variable {s t : State ρ κ ω} {a : Action ρ κ ω}

/-- No wake-up for a job slot is lost in a run exactly if at most one client
sleeps whenever a slot is released and none whenever slots are given back. -/
theorem JobRun.noLostWakeup_iff {start s : State ρ κ ω} {history : List (Transition (State ρ κ ω) (Action ρ κ ω))}
    (created : start.Created) (run : JobRun start history s) :
    (∀ τ ∈ history, NoLostWakeup τ.after) ↔ ∀ τ ∈ history, WakesAll τ := by
  have initial : NoLostWakeup start := fun c r sleeps => by simp [(created.api r).waiters, State.SleepsOn] at sleeps
  refine run.guarded_iff (I := fun s => s.Inv ∧ s.Sleepers) ⟨created.inv, created.sleepers⟩
    (fun _ _ _ both step => ⟨step.inv both.1, step.move.sleepers both.2⟩) initial fun u b v both awake step => ?_
  rw [(step.move.sleepers both.2).noLostWakeup]
  exact step.awake_iff both.1 (both.2.noLostWakeup.mp awake)

end

/-- The run in which a released slot finds a client asleep. -/
theorem noLostWakeup_iff_crowd : ∃ history s, JobRun State.crowd history s ∧ (s.api ()).availableJobs = [0] ∧
    ((∀ τ ∈ history, NoLostWakeup τ.after) ↔ ∀ τ ∈ history, WakesAll τ) := by
  obtain ⟨s, ⟨created, ⟨history, run⟩, _⟩, _, available, _⟩ := crowd_run
  exact ⟨history, s, run, available, JobRun.noLostWakeup_iff created run⟩

/-- The second client sleeps on although a slot is available and no signal is pending. -/
theorem crowd_wakeup_lost :
    ¬ ∀ (start : State Unit (Fin 3) Unit) history s, start.Created → JobRun start history s →
      ∀ τ ∈ history, NoLostWakeup τ.after := by
  intro always
  obtain ⟨s, ⟨created, ⟨history, run⟩, _⟩, waiters, available, g, asleep, todo⟩ := crowd_run
  cases run with
  | start =>
    rw [(created.api ()).waiters] at waiters
    cases waiters
  | @next earlier before a after previous taken =>
    have awake := always _ _ _ created (previous.next taken) _ List.mem_cons_self
    have empty := (awake 2 () ⟨by rw [waiters]; exact List.mem_cons_self, g, 1, [], asleep, todo⟩).1
    rw [available] at empty
    cases empty

end Upmem.Jobs
