import Upmem.JobMasters
import Upmem.JobPlaces
import Mathlib.Algebra.BigOperators.Group.Finset.Basic
import Mathlib.Data.Fintype.Basic
import Mathlib.Data.List.Perm.Basic

set_option linter.unusedSectionVars false

namespace Upmem.Jobs
open Transitions
variable {ρ κ ω : Type} [DecidableEq ρ] [DecidableEq κ] [DecidableEq ω]

/-- The slots that a client has taken, those of the current rank last. -/
def Getting.taken (g : Getting ρ) : List (ρ × List Nat) :=
  g.got ++ g.todo.head?.toList.map fun entry => (entry.1, g.hand)

/-- The slots of a rank that a client holds. -/
def ClientPc.held (r : ρ) : ClientPc ρ κ → List Nat
  | .getting g => ofRank r g.taken
  | .asleep g => ofRank r g.taken
  | .ungetting got => ofRank r got
  | .adding _ jobs => (ofRank r jobs).map ThreadJob.slot
  | _ => []

instance (master : Master ρ) : Decidable master.InProgress :=
  inferInstanceAs (Decidable (master.freed = false ∧ master.abandoned = false))

/-- The occurrences of a slot in the list of available jobs and in the FIFO. -/
def RankApi.slotCount (api : RankApi κ) (k : Nat) : Nat :=
  api.availableJobs.count k + (api.jobs.map ThreadJob.slot).count k

/-- A callback in progress holds the slot of its master job. -/
def Master.slotCount (master : Master ρ) (r : ρ) (k : Nat) : Nat :=
  if master.InProgress ∧ master.slotOwner = r ∧ master.slot = k then 1 else 0

variable [Fintype κ]

/-- The number of places where a slot is. -/
def State.slotCount (s : State ρ κ ω) (r : ρ) (k : Nat) : Nat :=
  (s.api r).slotCount k + ∑ c, ((s.clients c).held r).count k + ∑ m ∈ Finset.range s.nextMaster,
    (s.masters m).slotCount r k

/-- No call is being made, no job is queued and no worker has a callback at hand. -/
structure State.Settled (s : State ρ κ ω) : Prop where
  clients : ∀ c, s.clients c = .idle
  jobs : ∀ r, (s.api r).jobs = []
  workers : ∀ w, (s.workers w).master? = none

/-- Every slot of a rank is in exactly one place, the available list has the
length that is noted, and all slots are available again at the end. -/
structure SlotsConserved (s : State ρ κ ω) : Prop where
  place : ∀ r k, s.slotCount r k = if k < (s.api r).nrJobs then 1 else 0
  length : ∀ r, (s.api r).availableJobsLength = (s.api r).availableJobs.length
  returned : s.Settled → ∀ r, (s.api r).availableJobs.Perm (List.range (s.api r).nrJobs)

/-- No client that already holds a slot of a rank finds an error there, and no
job of a callback in progress is dropped. -/
structure KeepsSlots (τ : Transition (State ρ κ ω) (Action ρ κ ω)) : Prop where
  hand : ∀ c g r need rest, τ.action = .client c → τ.before.clients c = .getting g → g.todo = (r, need) :: rest →
    (τ.before.api r).jobError ≠ .ok → g.hand = []
  callbacks : ∀ w r job status, τ.action = .worker w → τ.before.workers w = .done r job status → status ≠ .ok →
    ∀ m ∈ mastersOf (τ.before.api r).jobs, ¬ (τ.before.masters m).InProgress

section
variable {api api' : RankApi κ} {k : Nat}

theorem RankApi.slotCount_release (woken : Option κ) (slot : Nat) :
    (api.releaseJobSlotUnlocked woken slot).slotCount k = api.slotCount k + [slot].count k := by
  simp only [RankApi.slotCount, RankApi.releaseJobSlotUnlocked, List.count_append]
  omega

theorem RankApi.slotCount_advance (woken : Option κ) :
    (api.advanceToNextJob woken).2.slotCount k = api.slotCount k := by
  unfold RankApi.advanceToNextJob
  split
  next => rfl
  next job rest jobs =>
    simp only [RankApi.slotCount, RankApi.releaseJobSlotUnlocked, jobs, List.map_cons, List.count_append,
      List.count_cons,
      List.count_nil]
    omega

theorem RankApi.slotCount_drained (woken : Option κ) : (api.drained woken).slotCount k = api.slotCount k := by
  simp [RankApi.slotCount, RankApi.drained, List.count_append]

theorem RankApi.slotCount_unget (slots : List Nat) :
    (api.ungetJobs slots).slotCount k = api.slotCount k + slots.count k := by
  simp only [RankApi.ungetJobs_eq, RankApi.slotCount, List.count_append, List.count_reverse]
  omega

/-- The slots in hand when a critical section of `dpu_thread_job_get_jobs` is over. -/
def GetResult.hand : GetResult → List Nat
  | .got hand => hand
  | .sleeps _ hand => hand
  | .failed => []

theorem RankApi.slotCount_getJobs {need : Nat} {hand : List Nat} {result : GetResult}
    (taken : api.getJobs need hand = (result, api')) (some : result ≠ .failed) :
    result.hand.count k + api'.slotCount k = hand.count k + api.slotCount k := by
  induction need generalizing hand api with
  | zero =>
    cases taken
    rfl
  | succ need ih =>
    unfold RankApi.getJobs at taken
    split_ifs at taken
    · cases taken
      exact absurd rfl some
    · split at taken
      next => cases taken; rfl
      next slot rest available =>
        rw [ih taken]
        simp only [RankApi.slotCount, available, List.count_append, List.count_cons, List.count_nil]
        omega

theorem RankApi.getJobs_failed {need : Nat} {hand : List Nat} (failed : api.getJobs need hand = (.failed, api')) :
    api' = api ∧ api.jobError ≠ .ok := by
  induction need generalizing hand api with
  | zero => cases failed
  | succ need ih =>
    unfold RankApi.getJobs at failed
    split_ifs at failed with fine
    · cases failed
      exact ⟨rfl, fine⟩
    · split at failed
      next => cases failed
      next => exact absurd (ih failed).2 fine

/-- What the operations keep of the available list. -/
def RankApi.Measured (api : RankApi κ) : Prop := api.availableJobsLength = api.availableJobs.length

theorem RankApi.Measured.getJobs {need : Nat} {hand : List Nat} {result : GetResult} (measured : api.Measured)
    (taken : api.getJobs need hand = (result, api')) : api'.Measured := by
  induction need generalizing hand api with
  | zero =>
    cases taken
    exact measured
  | succ need ih =>
    unfold RankApi.getJobs at taken
    split_ifs at taken
    · cases taken
      exact measured
    · split at taken
      next => cases taken; exact measured
      next slot rest available =>
        refine ih ?_ taken
        rw [RankApi.Measured, available, List.length_cons] at measured
        exact Nat.sub_eq_of_eq_add measured

theorem RankApi.Measured.release (measured : api.Measured) (woken : Option κ) (slot : Nat) :
    (api.releaseJobSlotUnlocked woken slot).Measured := by
  simpa [RankApi.Measured, RankApi.releaseJobSlotUnlocked] using measured

theorem RankApi.Measured.advance (measured : api.Measured) (woken : Option κ) :
    (api.advanceToNextJob woken).2.Measured := by
  unfold RankApi.advanceToNextJob
  split
  · exact measured
  · exact measured.release woken _

theorem RankApi.Measured.drained (measured : api.Measured) (woken : Option κ) : (api.drained woken).Measured := by
  simpa [RankApi.Measured, RankApi.drained] using measured

theorem RankApi.Measured.unget (measured : api.Measured) (slots : List Nat) : (api.ungetJobs slots).Measured := by
  rw [RankApi.Measured, RankApi.ungetJobs_eq, List.length_append, List.length_reverse, measured, Nat.add_comm]

end

section
variable {s t : State ρ κ ω} {r r' : ρ} {k : Nat} {c : κ} {w : ω} {a : Action ρ κ ω}

theorem sum_update {ι α : Type} [DecidableEq ι] {places : Finset ι} {i : ι} (member : i ∈ places) (f : α → Nat)
    (values : ι → α) (value : α) :
    ∑ j ∈ places, f (Function.update values i value j) + f (values i) = ∑ j ∈ places, f (values j) + f value := by
  have others : ∑ j ∈ places.erase i, f (Function.update values i value j) = ∑ j ∈ places.erase i, f (values j) :=
    Finset.sum_congr rfl fun j member => by rw [Function.update_of_ne (Finset.ne_of_mem_erase member)]
  rw [← Finset.add_sum_erase places _ member, ← Finset.add_sum_erase places _ member, others, Function.update_self]
  omega

theorem State.slotCount_setApi {q : ρ} (api : RankApi κ) :
    (s.setApi r api).slotCount q k + (if q = r then (s.api r).slotCount k else 0) =
      s.slotCount q k + if q = r then api.slotCount k else 0 := by
  simp only [State.slotCount, State.setApi]
  by_cases same : q = r
  · subst same
    rw [Function.update_self, if_pos rfl, if_pos rfl]
    omega
  · rw [Function.update_of_ne same, if_neg same, if_neg same]

theorem State.slotCount_setClient (pc : ClientPc ρ κ) :
    (s.setClient c pc).slotCount r k + ((s.clients c).held r).count k = s.slotCount r k + (pc.held r).count k := by
  have sum := sum_update (Finset.mem_univ c) (fun pc => (ClientPc.held r pc).count k) s.clients pc
  simp only [State.slotCount, State.setClient]
  omega

theorem State.slotCount_setMaster {m : Nat} (below : m < s.nextMaster) (master : Master ρ) :
    (s.setMaster m master).slotCount r k + (s.masters m).slotCount r k = s.slotCount r k +
      master.slotCount r k := by
  have sum := sum_update (Finset.mem_range.mpr below) (fun master => Master.slotCount master r k) s.masters master
  simp only [State.slotCount, State.setMaster]
  omega

/-- A move that changes one rank and one client. -/
theorem State.slotCount_client {q : ρ} (api : RankApi κ) (pc : ClientPc ρ κ) :
    ((s.setApi r api).setClient c pc).slotCount q k + ((s.clients c).held q).count k +
        (if q = r then (s.api r).slotCount k else 0) =
      s.slotCount q k + (pc.held q).count k + if q = r then api.slotCount k else 0 := by
  have client := State.slotCount_setClient (s := s.setApi r api) (r := q) (k := k) (c := c) pc
  have rank := State.slotCount_setApi (s := s) (r := r) (q := q) (k := k) api
  have same : (s.setApi r api).clients c = s.clients c := rfl
  rw [same] at client
  omega

theorem Getting.taken_of_todo {g : Getting ρ} {need : Nat} {rest : List (ρ × Nat)}
    (todo : g.todo = (r, need) :: rest) :
    g.taken = g.got ++ [(r, g.hand)] := by
  simp [Getting.taken, todo]

/-- With nothing in hand it does not matter which rank comes next. -/
theorem Getting.taken_of_hand {g : Getting ρ} (none : g.hand = []) : ofRank r g.taken = ofRank r g.got := by
  unfold Getting.taken
  cases g.todo.head? with
  | none => simp
  | some entry => simp [none]

theorem Call.jobsOf_slots (call : Call ρ) (master : Option Nat) (slots : List Nat) :
    (call.jobsOf c master slots).map ThreadJob.slot = slots := by
  cases slots with
  | nil => rfl
  | cons slot slots => simp [Call.jobsOf, Function.comp_def]

theorem Call.ofRank_jobs (call : Call ρ) (master : Option Nat) (got : List (ρ × List Nat)) :
    (ofRank r (got.map fun (rank, slots) => (rank, call.jobsOf c master slots))).map ThreadJob.slot =
      ofRank r got := by
  induction got with
  | nil => rfl
  | cons entry got ih =>
    obtain ⟨rank, slots⟩ := entry
    rw [List.map_cons, ofRank_cons, List.map_append, ih, ofRank_cons]
    split_ifs
    · rw [Call.jobsOf_slots]
    · rfl

/-- What the clients and the ranks keep beside the places of the slots. -/
structure State.Slotted (s : State ρ κ ω) : Prop where
  hand : ∀ c g, s.clients c = .getting g → g.todo = [] → g.hand = []
  length : ∀ r, (s.api r).Measured

theorem State.Created.slotted (created : s.Created) : s.Slotted where
  hand c g here := by simp [created.clients c] at here
  length r := by
    rw [RankApi.Measured, (created.api r).availableJobsLength, (created.api r).availableJobs]
    simp

theorem Move.slotted (move : Move s a t) (slotted : s.Slotted) : t.Slotted := by
  have length {r' : ρ} {api : RankApi κ} (measured : api.Measured) (r : ρ) :
      (Function.update s.api r' api r).Measured := by
    by_cases same : r = r'
    · subst same
      rwa [Function.update_self]
    · rw [Function.update_of_ne same]
      exact slotted.length r
  have hand {u : State ρ κ ω} {c' : κ} {pc : ClientPc ρ κ} (clients : u.clients = s.clients)
      (rested : ∀ g, pc = .getting g → g.todo = [] → g.hand = []) (c : κ) (g : Getting ρ)
      (here : (u.setClient c' pc).clients c = .getting g) : g.todo = [] → g.hand = [] := by
    rw [State.setClient_clients, clients] at here
    by_cases same : c = c'
    · subst same
      rw [Function.update_self] at here
      exact rested g here
    · rw [Function.update_of_ne same] at here
      exact slotted.hand c g here
  cases a with
  | begin c call =>
    obtain ⟨idle⟩ := move
    split_ifs
    all_goals
      refine ⟨hand rfl fun g start _ => ?_, slotted.length⟩
      obtain rfl := ClientPc.getting.inj start
      rfl
  | compute w status => cases move <;> exact ⟨slotted.hand, slotted.length⟩
  | client c =>
    cases move with
    | gets _ _ taken =>
      refine ⟨hand rfl fun g later _ => ?_, length ((slotted.length _).getJobs taken)⟩
      obtain rfl := ClientPc.getting.inj later
      rfl
    | sleeps _ _ taken =>
      have measured := (slotted.length _).getJobs taken
      exact ⟨hand rfl (by simp), length measured⟩
    | fails _ _ taken => exact ⟨hand rfl (by simp), length ((slotted.length _).getJobs taken)⟩
    | @wakes _ g r need rest here todo =>
      refine ⟨hand rfl fun g' later none => ?_, length (slotted.length r)⟩
      obtain rfl := ClientPc.getting.inj later
      simp [todo] at none
    | ungets => exact ⟨hand rfl (by simp), length ((slotted.length _).unget _)⟩
    | choosesMaster =>
      refine ⟨hand rfl fun g later none => ?_, slotted.length⟩
      obtain rfl := ClientPc.getting.inj later
      cases none
    | @adds _ call r jobs rest here =>
      rw [State.addJobs_eq]
      exact ⟨hand rfl (by simp), length (slotted.length r)⟩
    | @added _ call => exact ⟨hand rfl (by split_ifs <;> simp), slotted.length⟩
    | @resets _ r => exact ⟨hand rfl (by simp), length (slotted.length r)⟩
    | setsMaster => exact ⟨hand rfl (by simp), slotted.length⟩
    | unget | setsJobs | returns | reset => exact ⟨hand rfl (by simp), slotted.length⟩
  | worker w =>
    cases move with
    | takes | leaves => exact ⟨slotted.hand, slotted.length⟩
    | @inserts _ r next m here =>
      unfold State.insertRankList
      split_ifs <;> exact ⟨slotted.hand, slotted.length⟩
    | detaches | advances | wakesRank => exact ⟨slotted.hand, length ((slotted.length _).advance _)⟩
    | leavesMaster | releases => exact ⟨slotted.hand, length ((slotted.length _).release _ _)⟩
    | @updatesStatus _ r job status woken here =>
      obtain ⟨syncs, dropped⟩ := s.updateStatus_eq r status woken
      rw [dropped]
      exact ⟨slotted.hand, length (RankApi.Measured.drained (slotted.length r) woken)⟩

/-- The number of slots of a rank never changes. -/
theorem Move.nrJobs (move : Move s a t) (r : ρ) : (t.api r).nrJobs = (s.api r).nrJobs := by
  have update {r' : ρ} {api : RankApi κ} (own : api.nrJobs = (s.api r').nrJobs) :
      (Function.update s.api r' api r).nrJobs = (s.api r).nrJobs := by
    by_cases same : r = r'
    · subst same
      rwa [Function.update_self]
    · rw [Function.update_of_ne same]
  cases a with
  | begin c call => exact (move.begin_frame.1.api r).nrJobs
  | compute w status => cases move <;> rfl
  | client c =>
    rcases move.client_frame with frame | ⟨call, r', jobs, rest, here, rfl⟩
    · exact (frame.api r).nrJobs
    · rw [State.addJobs_eq]
      exact update rfl
  | worker w =>
    cases move with
    | takes | leaves => rfl
    | @inserts _ r' next m here =>
      unfold State.insertRankList
      split_ifs <;> rfl
    | detaches | advances | wakesRank => exact update (RankApi.advanceToNextJob_nrJobs ..)
    | leavesMaster | releases => exact update rfl
    | @updatesStatus _ r' job status woken here =>
      obtain ⟨syncs, dropped⟩ := s.updateStatus_eq r' status woken
      rw [dropped]
      exact update rfl

/-- A client takes no slot and gives none back. -/
theorem State.slotCount_quiet {pc : ClientPc ρ κ} (same : (pc.held r).count k = ((s.clients c).held r).count k) :
    (s.setClient c pc).slotCount r k = s.slotCount r k := by
  have client := State.slotCount_setClient (s := s) (c := c) (r := r) (k := k) pc
  omega

/-- A client that finds an error gives up the slots that it has in hand. -/
theorem State.slotCount_fails {g : Getting ρ} {need : Nat} {rest : List (ρ × Nat)} (here : s.clients c = .getting g)
    (todo : g.todo = (r', need) :: rest) :
    (s.setClient c (.ungetting g.got)).slotCount r k + (if r' = r then g.hand.count k else 0) =
      s.slotCount r k := by
  have client := State.slotCount_setClient (s := s) (c := c) (r := r) (k := k) (.ungetting g.got)
  have before : ((s.clients c).held r).count k = (ofRank r g.got).count k + if r' = r then g.hand.count k
      else 0 := by
    rw [here, ClientPc.held, Getting.taken_of_todo todo, ofRank_append, ofRank_singleton, List.count_append]
    split_ifs <;> simp
  rw [before, ClientPc.held] at client
  omega

/-- A critical section of `dpu_thread_job_get_jobs` moves slots to the client. -/
theorem State.slotCount_getJobs {g : Getting ρ} {pc : ClientPc ρ κ} {need : Nat} {rest : List (ρ × Nat)}
    {result : GetResult} {api api' : RankApi κ} (here : s.clients c = .getting g)
    (todo : g.todo = (r', need) :: rest)
    (taken : (s.api r').getJobs need g.hand = (result, api)) (some : result ≠ .failed)
    (after : ∀ r, pc.held r = ofRank r (g.got ++ [(r', result.hand)])) (same : api'.slotCount k = api.slotCount k) :
    ((s.setApi r' api').setClient c pc).slotCount r k = s.slotCount r k := by
  have both := State.slotCount_client (s := s) (c := c) (r := r') (q := r) (k := k) api' pc
  have moved := RankApi.slotCount_getJobs (k := k) taken some
  rw [after, here, ClientPc.held, Getting.taken_of_todo todo, same] at both
  simp only [ofRank_append, ofRank_singleton, List.count_append, eq_comm (a := r')] at both
  split_ifs at both
  · simp_all
    omega
  · simp_all

theorem Move.slotCount_client (move : Move s (.client c) t) (slotted : s.Slotted)
    (good : KeepsSlots ⟨s, .client c, t⟩) : t.slotCount r k = s.slotCount r k := by
  cases move with
  | @gets _ g r' need rest hand api here todo taken =>
    refine State.slotCount_getJobs here todo taken (by simp) (fun r => ?_) rfl
    rw [ClientPc.held, Getting.taken_of_hand rfl]
    rfl
  | @sleeps _ g r' need rest need' hand api here todo taken =>
    refine State.slotCount_getJobs here todo taken (by simp) (fun r => ?_) rfl
    rw [ClientPc.held, Getting.taken_of_todo rfl]
    rfl
  | @wakes _ g r' need rest here todo =>
    have both := State.slotCount_client (s := s) (c := c) (r := r') (q := r) (k := k)
      { s.api r' with waiters := (s.api r').waiters.erase c } (.getting g)
    rw [here] at both
    exact Nat.add_right_cancel (Nat.add_right_cancel both)
  | @fails _ g r' need rest api here todo taken =>
    obtain ⟨rfl, error⟩ := RankApi.getJobs_failed taken
    have empty := good.hand c g r' need rest rfl here todo error
    have given := State.slotCount_fails (s := s) (r := r) (k := k) here todo
    rw [State.setApi, Function.update_eq_self]
    simp only [empty, List.count_nil, ite_self] at given
    exact given
  | @ungets _ r' slots rest here =>
    have both := State.slotCount_client (s := s) (c := c) (r := r') (q := r) (k := k) ((s.api r').ungetJobs slots)
      (.ungetting rest)
    rw [here, ClientPc.held, ClientPc.held, ofRank_cons, List.count_append, RankApi.slotCount_unget] at both
    simp only [eq_comm (a := r')] at both
    split_ifs at both
    · simp_all
      omega
    · simp_all
  | unget here => exact State.slotCount_quiet (by rw [here]; rfl)
  | @choosesMaster _ g owner here todo =>
    refine State.slotCount_quiet ?_
    have none := slotted.hand c g here todo
    simp [here, ClientPc.held, Getting.taken, todo, none]
  | @setsJobs _ g here todo =>
    refine State.slotCount_quiet ?_
    have none := slotted.hand c g here todo
    rw [here, ClientPc.held, ClientPc.held, Getting.taken_of_hand none, Call.ofRank_jobs]
  | @setsMaster _ g owner slot got here todo chosen last =>
    have none := slotted.hand c g here todo
    have clients := sum_update (Finset.mem_univ c) (fun pc => (ClientPc.held r pc).count k) s.clients
      (.adding g.call (got.map fun (rank, slots) => (rank, g.call.jobsOf c (some s.nextMaster) slots)))
    rw [here, ClientPc.held, ClientPc.held, Getting.taken_of_hand none, Call.ofRank_jobs, last, ofRank_append,
      ofRank_singleton, List.count_append] at clients
    have masters (master : Master ρ) : ∑ m ∈ Finset.range s.nextMaster,
        (Function.update s.masters s.nextMaster master m).slotCount r k =
          ∑ m ∈ Finset.range s.nextMaster, (s.masters m).slotCount r k :=
      Finset.sum_congr rfl fun m member => by rw [Function.update_of_ne (Finset.mem_range.mp member).ne]
    simp only [State.slotCount, State.setMaster, State.setClient, Finset.sum_range_succ, masters,
      Function.update_self]
    by_cases at_rank : owner = r <;> by_cases at_slot : slot = k <;>
      simp [Master.slotCount, Master.InProgress, at_rank, at_slot] at clients ⊢ <;> omega
  | @adds _ call r' jobs rest here =>
    have moved {api : RankApi κ} (more : api.slotCount k = (s.api r').slotCount k +
        (jobs.map ThreadJob.slot).count k) :
        ((s.setApi r' api).setClient c (.adding call rest)).slotCount r k = s.slotCount r k := by
      have both := State.slotCount_client (s := s) (c := c) (r := r') (q := r) (k := k) api (.adding call rest)
      rw [here, ClientPc.held, ClientPc.held, ofRank_cons, List.map_append, List.count_append, more] at both
      simp only [eq_comm (a := r')] at both
      split_ifs at both
      · omega
      · rw [List.map_nil, List.count_nil] at both
        omega
    rw [State.addJobs_eq]
    refine @moved { s.api r' with jobs := (s.api r').jobs ++ jobs } ?_
    rw [RankApi.slotCount, RankApi.slotCount, List.map_append, List.count_append, Nat.add_assoc]
  | @added _ call here =>
    refine State.slotCount_quiet ?_
    rw [here]
    split_ifs <;> rfl
  | returns here => exact State.slotCount_quiet (by rw [here]; rfl)
  | @resets _ r' rest here =>
    have both := State.slotCount_client (s := s) (c := c) (r := r') (q := r) (k := k)
      { s.api r' with jobError := .ok } (.resetting rest)
    rw [here] at both
    exact Nat.add_right_cancel (Nat.add_right_cancel both)
  | reset here => exact State.slotCount_quiet (by rw [here]; rfl)

/-- A thread moves no slot. -/
theorem State.slotCount_congr (api : ∀ r, (t.api r).slotCount k = (s.api r).slotCount k)
    (clients : t.clients = s.clients)
    (next : t.nextMaster = s.nextMaster)
    (masters : ∀ m < s.nextMaster, (t.masters m).slotCount r k = (s.masters m).slotCount r k) :
    t.slotCount r k = s.slotCount r k := by
  have sum := Finset.sum_congr (rfl : Finset.range s.nextMaster = Finset.range s.nextMaster) fun m member =>
    masters m (Finset.mem_range.mp member)
  rw [State.slotCount, api, clients, next, sum, ← State.slotCount]

/-- The slot of a master job goes from the callback to the available list. -/
theorem State.slotCount_releaseMaster {m : Nat} {woken : Option κ} (below : m < s.nextMaster)
    (progress : (s.masters m).InProgress) : (s.releaseMaster woken m).slotCount r k = s.slotCount r k := by
  have rank := State.slotCount_setApi (s := s) (r := (s.masters m).slotOwner) (q := r) (k := k)
    ((s.api (s.masters m).slotOwner).releaseJobSlotUnlocked woken (s.masters m).slot)
  have master := State.slotCount_setMaster (s := s.setApi (s.masters m).slotOwner
    ((s.api (s.masters m).slotOwner).releaseJobSlotUnlocked woken (s.masters m).slot)) (r := r) (k := k) below
      { s.masters m with freed := true }
  have settled : ({ s.masters m with freed := true } : Master ρ).slotCount r k = 0 :=
    if_neg fun both => by simpa using both.1.1
  have before : ((s.setApi (s.masters m).slotOwner
      ((s.api (s.masters m).slotOwner).releaseJobSlotUnlocked woken (s.masters m).slot)).masters m).slotCount r k =
        if r = (s.masters m).slotOwner then [(s.masters m).slot].count k else 0 := by
    by_cases at_rank : (s.masters m).slotOwner = r <;> by_cases at_slot : (s.masters m).slot = k <;>
      simp [State.setApi, Master.slotCount, progress, at_rank, at_slot, eq_comm (a := r)]
  rw [before, settled] at master
  rw [RankApi.slotCount_release] at rank
  rw [State.releaseMaster]
  split_ifs at rank master <;> omega

/-- The master jobs of the callbacks whose jobs are dropped are lost, unless they are free already. -/
theorem State.slotCount_updateStatus {q : ρ} (status : DpuError) (woken : Option κ) :
    (s.updateStatus q status woken).slotCount r k +
        (∑ m ∈ Finset.range s.nextMaster, if m ∈ mastersOf (s.api q).jobs then (s.masters m).slotCount r k else 0) =
      s.slotCount r k := by
  obtain ⟨syncs, dropped⟩ := s.updateStatus_eq q status woken
  rw [dropped]
  have masters (m : Nat) : (abandon (s.api q).jobs s.masters m).slotCount r k +
      (if m ∈ mastersOf (s.api q).jobs then (s.masters m).slotCount r k else 0) = (s.masters m).slotCount r k := by
    have member : .callbackOf m ∈ (s.api q).jobs.map ThreadJob.type ↔ m ∈ mastersOf (s.api q).jobs := by
      rw [List.mem_map, mem_mastersOf]
    simp only [abandon, member]
    split_ifs
    · have settled : ({ s.masters m with abandoned := true } : Master ρ).slotCount r k = 0 := if_neg fun both => by
        simpa using both.1.2
      rw [settled, Nat.zero_add]
    · rfl
  have sum : (∑ m ∈ Finset.range s.nextMaster, (abandon (s.api q).jobs s.masters m).slotCount r k) +
      (∑ m ∈ Finset.range s.nextMaster, if m ∈ mastersOf (s.api q).jobs then (s.masters m).slotCount r k else 0) =
        ∑ m ∈ Finset.range s.nextMaster, (s.masters m).slotCount r k := by
    rw [← Finset.sum_add_distrib]
    exact Finset.sum_congr rfl fun m _ => masters m
  have api : (Function.update s.api q ({ s.api q with jobError := status }.drained woken) r).slotCount k =
      (s.api r).slotCount k := by
    by_cases same : r = q
    · subst same
      rw [Function.update_self, RankApi.slotCount_drained]
      rfl
    · rw [Function.update_of_ne same]
  simp only [State.slotCount, api]
  omega

theorem Move.slotCount_compute {status : DpuError} (move : Move s (.compute w status) t) :
    t.slotCount r k = s.slotCount r k := by
  have arrives (m : Nat) (r' : ρ) : ∀ m' < s.nextMaster,
      (Function.update s.masters m ((s.masters m).arrive r') m').slotCount r k = (s.masters m').slotCount r k := by
    intro m' _
    by_cases same : m' = m
    · subst same
      rw [Function.update_self]
      rfl
    · rw [Function.update_of_ne same]
  cases move with
  | works | syncs | calls | callsNonblocking => rfl
  | arrives | parks | callsLastNonblocking | callsLast =>
    exact State.slotCount_congr (fun _ => rfl) rfl rfl (arrives _ _)

theorem Move.slotCount_worker (move : Move s (.worker w) t) (inv : s.Inv)
    (kept : ∀ m < s.nextMaster, (s.masters m).abandoned = true → (s.masters m).freed = true)
    (good : KeepsSlots ⟨s, .worker w, t⟩) : t.slotCount r k = s.slotCount r k := by
  have pops {r' : ρ} {woken : Option κ} (r : ρ) :
      (Function.update s.api r' ((s.api r').advanceToNextJob woken).2 r).slotCount k = (s.api r).slotCount k := by
    by_cases same : r = r'
    · subst same
      rw [Function.update_self, RankApi.slotCount_advance]
    · rw [Function.update_of_ne same]
  have releases {m : Nat} {woken : Option κ} {pc : WorkerPc ρ κ} (holds : (s.workers w).master? = some m) :
      ((s.releaseMaster woken m).setWorker w pc).slotCount r k = s.slotCount r k := by
    obtain ⟨below, _, notFreed⟩ := inv.gathered.holder w m holds
    refine State.slotCount_releaseMaster below ⟨notFreed, Bool.eq_false_iff.mpr fun abandoned => ?_⟩
    exact Bool.false_ne_true (notFreed.symm.trans (kept m below abandoned))
  cases move with
  | takes | leaves => rfl
  | @inserts _ r' next m here =>
    unfold State.insertRankList
    split_ifs <;> rfl
  | detaches | advances | wakesRank => exact State.slotCount_congr pops rfl rfl fun _ _ => rfl
  | leavesMaster here | releases here => exact releases (by rw [here]; rfl)
  | @updatesStatus _ r' job status woken here error =>
    have lost := State.slotCount_updateStatus (s := s) (r := r) (q := r') (k := k) status woken
    rw [Finset.sum_eq_zero] at lost
    · exact lost
    · intro m _
      refine ite_eq_right_iff.mpr fun member => ?_
      exact if_neg fun both => good.callbacks w r' job status rfl here error m member both.1

/-- A client that finds an error goes on to give back the slots of the other ranks. -/
theorem Move.of_error {g : Getting ρ} {need : Nat} {rest : List (ρ × Nat)} (move : Move s (.client c) t)
    (ok : (s.clients c).Ok)
    (here : s.clients c = .getting g) (todo : g.todo = (r, need) :: rest) (error : (s.api r).jobError ≠ .ok) :
    t = s.setClient c (.ungetting g.got) := by
  have positive : 0 < need := by
    rw [here] at ok
    exact ok.needs (r, need) (by rw [todo]; exact List.mem_cons_self)
  have failed : (s.api r).getJobs need g.hand = (.failed, s.api r) := by
    obtain ⟨need, rfl⟩ := Nat.exists_eq_succ_of_ne_zero positive.ne'
    rw [RankApi.getJobs, if_pos error]
  have same {g' : Getting ρ} {r' : ρ} {need' : Nat} {rest' : List (ρ × Nat)} {result : GetResult} {api : RankApi κ}
      (here' : s.clients c = .getting g') (todo' : g'.todo = (r', need') :: rest')
      (taken : (s.api r').getJobs need' g'.hand = (result, api)) : g' = g ∧ r' = r ∧ result = .failed ∧
          api = s.api r := by
    obtain rfl := ClientPc.getting.inj (here'.symm.trans here)
    obtain ⟨entry, -⟩ := List.cons.inj (todo'.symm.trans todo)
    obtain ⟨rfl, rfl⟩ := Prod.mk.inj entry
    obtain ⟨rfl, rfl⟩ := Prod.mk.inj (taken.symm.trans failed)
    exact ⟨rfl, rfl, rfl, rfl⟩
  have none {g' : Getting ρ} (here' : s.clients c = .getting g') : g'.todo ≠ [] := by
    obtain rfl := ClientPc.getting.inj (here'.symm.trans here)
    simp [todo]
  cases move with
  | gets here' todo' taken | sleeps here' todo' taken => exact absurd (same here' todo' taken).2.2.1 (by simp)
  | fails here' todo' taken =>
    obtain ⟨rfl, rfl, -, rfl⟩ := same here' todo' taken
    rw [State.setApi, Function.update_eq_self]
  | choosesMaster here' todo' | setsJobs here' todo' | setsMaster here' todo' => exact absurd todo' (none here')
  | wakes here' | ungets here' | unget here' | adds here' | added here' | returns here' | resets here'
      | reset here' =>
    rw [here] at here'
    cases here'

/-- Each slot of each rank is in one place. -/
def State.SlotPlaces (s : State ρ κ ω) : Prop := ∀ r k, s.slotCount r k = if k < (s.api r).nrJobs then 1 else 0

/-- A master job is abandoned only when its slot is free already. -/
def State.NoneAbandoned (s : State ρ κ ω) : Prop :=
  ∀ m < s.nextMaster, (s.masters m).abandoned = true → (s.masters m).freed = true

theorem State.SlotPlaces.returned (places : s.SlotPlaces) (lasting : s.Lasting) (settled : s.Settled) (r : ρ) :
    (s.api r).availableJobs.Perm (List.range (s.api r).nrJobs) := by
  have notWorked {m : Nat} (below : m < s.nextMaster) : ¬ (s.masters m).InProgress := by
    intro progress
    have none : (s.masters m).sync.absent = [] := by
      refine List.eq_nil_iff_forall_not_mem.mpr fun r' member => ?_
      rcases lasting.pending m below progress r' member with queued | ⟨c, entry, added, _⟩
      · simp [settled.jobs r', mastersOf] at queued
      · simp [settled.clients c, ClientPc.toAdd] at added
    obtain ⟨w, holds⟩ := lasting.called m below progress none
    rw [settled.workers w] at holds
    cases holds
  refine List.perm_iff_count.mpr fun k => ?_
  have clients : ∑ c, ((s.clients c).held r).count k = 0 :=
    Finset.sum_eq_zero fun c _ => by rw [settled.clients c]; rfl
  have masters : ∑ m ∈ Finset.range s.nextMaster, (s.masters m).slotCount r k = 0 :=
    Finset.sum_eq_zero fun m member => if_neg fun both => notWorked (Finset.mem_range.mp member) both.1
  have place := places r k
  rw [State.slotCount, clients, masters, RankApi.slotCount, settled.jobs, List.map_nil, List.count_nil] at place
  rw [← Nat.add_zero (List.count k _)]
  refine place.trans ?_
  split_ifs with below
  · exact (List.count_eq_one_of_mem List.nodup_range (List.mem_range.mpr below)).symm
  · exact (List.count_eq_zero.mpr fun member => below (List.mem_range.mp member)).symm

theorem State.SlotPlaces.conserved_iff (lasting : s.Lasting) (slotted : s.Slotted) : SlotsConserved s ↔
      s.SlotPlaces :=
  ⟨SlotsConserved.place, fun places => ⟨places, slotted.length, places.returned lasting⟩⟩

/-- Slots leave their places exactly with an error for a client that holds
some, and with the jobs of a callback in progress. -/
theorem Move.slotPlaces_iff (move : Move s a t) (inv : s.Inv) (slotted : s.Slotted) (kept : s.NoneAbandoned)
    (places : s.SlotPlaces) : t.SlotPlaces ↔ KeepsSlots ⟨s, a, t⟩ := by
  have lost {r : ρ} {k lost : Nat} (after : t.SlotPlaces) (count : t.slotCount r k + lost =
      s.slotCount r k) : lost = 0 := by
    rw [after r k, places r k, move.nrJobs] at count
    omega
  constructor
  · intro after
    constructor
    · rintro c g r need rest ⟨⟩ here todo error
      have left := move.of_error (inv.clients c) here todo error
      refine List.eq_nil_iff_forall_not_mem.mpr fun k member => ?_
      have given := State.slotCount_fails (s := s) (r := r) (k := k) here todo
      rw [← left, if_pos rfl] at given
      exact List.count_eq_zero.mp (lost after given) member
    · rintro w r job status ⟨⟩ here error m member progress
      cases move with
      | @updatesStatus _ r' job' status' woken here' =>
        obtain ⟨rfl, rfl, rfl⟩ := WorkerPc.done.inj (here.symm.trans here')
        have given := State.slotCount_updateStatus (s := s) (r := (s.masters m).slotOwner) (q := r)
          (k := (s.masters m).slot) status woken
        have none :=
          Finset.sum_eq_zero_iff.mp (lost after given) m (Finset.mem_range.mpr (inv.members.known r m member))
        rw [if_pos member, Master.slotCount, if_pos ⟨progress, rfl, rfl⟩] at none
        cases none
      | advances here' =>
        obtain ⟨-, -, rfl⟩ := WorkerPc.done.inj (here.symm.trans here')
        exact error rfl
      | takes here' | detaches here' | inserts here' | leaves here' | leavesMaster here' | wakesRank here'
          | releases here' =>
        rw [here] at here'
        cases here'
  · intro good r k
    rw [move.nrJobs, ← places r k]
    cases a with
    | begin c call =>
      obtain ⟨idle⟩ := move
      have none : ((ClientPc.getting (Getting.start call) : ClientPc ρ κ).held r) = [] := by
        rw [ClientPc.held, Getting.taken_of_hand rfl]
        rfl
      split_ifs <;> exact State.slotCount_quiet (by rw [none]; simp only [State.setSync, idle]; rfl)
    | client c => exact move.slotCount_client slotted good
    | compute w status => exact move.slotCount_compute
    | worker w => exact move.slotCount_worker inv kept good

theorem Move.noneAbandoned (move : Move s a t) (inv : s.Inv) (kept : s.NoneAbandoned)
    (good : KeepsSlots ⟨s, a, t⟩) :
    t.NoneAbandoned := by
  have same {u : State ρ κ ω} (next : u.nextMaster = s.nextMaster)
      (masters : ∀ m, ((u.masters m).abandoned = true → (s.masters m).abandoned = true) ∧
        ((s.masters m).freed = true → (u.masters m).freed = true)) : u.NoneAbandoned :=
    fun m below abandoned => (masters m).2 (kept m (next ▸ below) ((masters m).1 abandoned))
  have update {m : Nat} {master : Master ρ} (abandoned : master.abandoned = (s.masters m).abandoned)
      (freed : (s.masters m).freed = true → master.freed = true) (m' : Nat) :
      ((Function.update s.masters m master m').abandoned = true → (s.masters m').abandoned = true) ∧
        ((s.masters m').freed = true → (Function.update s.masters m master m').freed = true) := by
    by_cases at_m : m' = m
    · subst at_m
      rw [Function.update_self, abandoned]
      exact ⟨id, freed⟩
    · rw [Function.update_of_ne at_m]
      exact ⟨id, id⟩
  cases a with
  | begin c call =>
    obtain ⟨_, masters, next⟩ := move.begin_frame
    exact same next fun m => by rw [masters]; exact ⟨id, id⟩
  | client c =>
    cases move.client_case (inv.clients c) with
    | quiet _ masters next => exact same next fun m => by rw [masters]; exact ⟨id, id⟩
    | setsMaster _ masters next =>
      intro m below abandoned
      rw [masters] at abandoned ⊢
      rcases Nat.lt_succ_iff_lt_or_eq.mp (next ▸ below) with earlier | rfl
      · rw [Function.update_of_ne earlier.ne] at abandoned ⊢
        exact kept m earlier abandoned
      · rw [Function.update_self] at abandoned
        cases abandoned
    | adds here added =>
      subst added
      rw [State.addJobs_eq]
      exact kept
  | compute w status =>
    cases move with
    | works | syncs | calls | callsNonblocking => exact kept
    | arrives | parks | callsLastNonblocking | callsLast => exact same rfl (update rfl id)
  | worker w =>
    cases move with
    | takes | leaves | detaches | advances | wakesRank => exact kept
    | @inserts _ r next m here =>
      unfold State.insertRankList
      split_ifs <;> exact kept
    | leavesMaster | releases => exact same rfl (update rfl fun _ => rfl)
    | @updatesStatus _ r job status woken here error =>
      obtain ⟨syncs, dropped⟩ := s.updateStatus_eq r status woken
      rw [dropped]
      intro m below abandoned
      change (abandon (s.api r).jobs s.masters m).freed = true
      change (abandon (s.api r).jobs s.masters m).abandoned = true at abandoned
      unfold abandon at abandoned ⊢
      split_ifs at abandoned ⊢ with member
      · obtain ⟨job', inside, type⟩ := List.mem_map.mp member
        have settled := good.callbacks w r job status rfl here error m (mem_mastersOf.mpr ⟨job', inside, type⟩)
        by_contra notFreed
        have notFreed := Bool.eq_false_iff.mpr notFreed
        refine settled ⟨notFreed, Bool.eq_false_iff.mpr fun before => ?_⟩
        exact Bool.false_ne_true (notFreed.symm.trans (kept m below before))
      · exact kept m below abandoned

end

/-- The threads of a rank with two clients and one worker. -/
def State.queueUp : State Unit Bool Unit where
  api _ :=
    { nrJobs := 2, queueIdx := 0, availableJobs := [1, 0], availableJobsLength := 2, jobs := [], jobError := .ok
      waiters := [] }
  queue _ := []
  clients _ := .idle
  workers _ := .idle
  workerQueue _ := 0
  syncs _ := .init []
  masters _ :=
    { slotOwner := (), slot := 0, ranks := [], isNonblocking := false, sync := .init [], freed := false
      abandoned := false }
  nextMaster := 0
  parked _ := false

theorem State.queueUp_created : State.queueUp.Created :=
  ⟨fun _ => ⟨rfl, rfl, rfl, rfl, rfl⟩, fun _ => rfl, fun _ => rfl, fun _ => rfl, rfl, fun _ => rfl⟩

/-- A call with one job or with two on the rank. -/
def queueUpCall (synchronous : Bool) : Call Unit where
  ranks := [()]
  kind := if synchronous then .synchronous else .async
  nodup := oneRank_nodup
  some := oneRank_some
  accepted := by cases synchronous <;> exact nofun

/-- A synchronous call has one of its two slots and sleeps when the job that has
the other one fails. -/
theorem queueUp_run : ∃ s, LiveRun State.queueUp s ∧ s.clients true = .ungetting [] ∧ s.clients false = .idle ∧
    (s.api ()).nrJobs = 2 ∧ (s.api ()).availableJobs = [1] ∧ (s.api ()).jobs = [] ∧ s.nextMaster = 0 := by
  have run : LiveRun State.queueUp State.queueUp :=
    ⟨State.queueUp_created, ⟨_, .start⟩, fun q => by simp [State.queueUp]⟩
  have run := run.next (a := .begin false (queueUpCall false)) (.begin rfl) (by simp)
  have run := run.next (a := .client false) (.gets rfl rfl rfl) (by simp)
  have run := run.next (a := .client false) (.setsJobs rfl rfl rfl) (by simp)
  have run := run.next (a := .client false) (.adds rfl) (by simp)
  have run := run.next (a := .client false) (.added rfl) (by simp)
  have run := run.next (a := .begin true (queueUpCall true)) (.begin rfl) (by simp)
  have run := run.next (a := .client true) (.sleeps rfl rfl rfl) (by simp)
  have run := run.next (a := .worker ()) (.takes rfl (show _ = _ from rfl)) (fun _ _ _ _ _ _ _ => nofun)
  have run := run.next (a := .compute () .timeout) (.works .timeout rfl rfl) (by simp)
  have run := run.next (a := .worker ())
    (.updatesStatus (show _ = _ from rfl) nofun (show Wakes [true] (some true) by decide))
      (fun _ _ _ _ _ _ _ => nofun)
  have run := run.next (a := .client true) (.wakes rfl rfl) (by simp)
  have run := run.next (a := .client true) (.fails rfl rfl rfl) (by simp)
  exact ⟨_, run, rfl, rfl, rfl, rfl, rfl, rfl⟩

section
variable {s : State ρ κ ω}

theorem State.Created.slotPlaces (created : s.Created) : s.SlotPlaces := by
  intro r k
  have clients : ∑ c, ((s.clients c).held r).count k = 0 :=
    Finset.sum_eq_zero fun c _ => by rw [created.clients c]; rfl
  rw [State.slotCount, clients, created.nextMaster, RankApi.slotCount, (created.api r).jobs,
    (created.api r).availableJobs,
    List.count_reverse, List.map_nil, List.count_nil, Finset.sum_range_zero, Nat.add_zero, Nat.add_zero]
  split_ifs with below
  · rw [List.count_eq_one_of_mem List.nodup_range (List.mem_range.mpr below)]
  · rw [List.count_eq_zero.mpr fun member => below (List.mem_range.mp member)]

/-- The slots are conserved all along a run exactly if no client that holds
slots of a rank finds an error there and no job of a callback in progress is dropped. -/
theorem JobRun.slotsConserved_iff {start s : State ρ κ ω} {history : List (Transition (State ρ κ ω) (Action ρ κ ω))}
    (created : start.Created) (run : JobRun start history s) :
    (∀ τ ∈ history, SlotsConserved τ.after) ↔ ∀ τ ∈ history, KeepsSlots τ := by
  have initial : SlotsConserved start :=
    (State.SlotPlaces.conserved_iff created.lasting created.slotted).mpr created.slotPlaces
  have none : start.NoneAbandoned := fun m below => by simp [created.nextMaster] at below
  refine run.guarded_iff_of (I := fun s => s.Inv ∧ s.Lasting ∧ s.Slotted) (Q := State.NoneAbandoned)
    ⟨created.inv, created.lasting, created.slotted⟩ ?_ initial none ?_ ?_
  · rintro u b v ⟨inv, lasting, slotted⟩ step
    exact ⟨step.inv inv, step.move.lasting inv lasting, step.move.slotted slotted⟩
  · rintro u b v ⟨inv, lasting, slotted⟩ kept conserved step
    rw [State.SlotPlaces.conserved_iff (step.move.lasting inv lasting) (step.move.slotted slotted)]
    exact step.move.slotPlaces_iff inv slotted kept conserved.place
  · exact fun u b v both kept step good => step.move.noneAbandoned both.1 kept good

end

/-- The run of the call that loses its first slot. -/
theorem slotsConserved_iff_queueUp : ∃ history s, JobRun State.queueUp history s ∧ (s.api ()).availableJobs = [1] ∧
    ((∀ τ ∈ history, SlotsConserved τ.after) ↔ ∀ τ ∈ history, KeepsSlots τ) := by
  obtain ⟨s, ⟨created, ⟨history, run⟩, _⟩, _, _, _, available, _⟩ := queueUp_run
  exact ⟨history, s, run, available, JobRun.slotsConserved_iff created run⟩

/-- The slot that the call had in hand is nowhere afterwards. -/
theorem queueUp_slot_lost :
    ¬ ∀ (start : State Unit Bool Unit) history s, start.Created → JobRun start history s →
      ∀ τ ∈ history, SlotsConserved τ.after := by
  intro always
  obtain ⟨s, ⟨created, ⟨history, run⟩, _⟩, waits, idle, slots, available, jobs, masters⟩ := queueUp_run
  cases run with
  | start =>
    rw [created.clients] at waits
    cases waits
  | @next earlier before a after previous taken =>
    have place := (always _ _ _ created (previous.next taken) _ List.mem_cons_self).place () 0
    simp [State.slotCount, RankApi.slotCount, available, jobs, masters, slots, waits, idle, ClientPc.held,
      ofRank] at place

end Upmem.Jobs
