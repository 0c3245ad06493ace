import Upmem.Barrier

namespace Upmem.Barrier
open Handshake (EMPTY_WAIT_QUEUE)
open Transitions WaitQueue EventLog

section Barriers
variable {ι : Type} [DecidableEq ι]

section Invariant
variable (shape : Shape ι) (i : ι) (o : Object) (waiting : Nat) (log : Log ι)

/-- A barrier that waits for arrivals, with the number of those that wait. -/
def Waiting : Prop :=
  shape.barrier i = true → o.count.toNat + waiting = (shape.initialCount i).toNat ∧ 0 < o.count.toNat ∧
    times log .opened i = times log .closed i ∧
    times log .resumed i = ((shape.initialCount i).toNat - 1) * times log .closed i

/-- A barrier that resumes its waiters, with the number of those left. -/
def Releasing : Prop :=
  shape.barrier i = true ∧ times log .opened i = times log .closed i + 1 ∧
    times log .resumed i + waiting = ((shape.initialCount i).toNat - 1) * times log .opened i ∧
    waiting ≤ (shape.initialCount i).toNat - 1

/-- What the holder of a lock has read, and where its barrier is. -/
def LocalsAt (table : BitVec 8 → BitVec 8) (queue : List (BitVec 8)) (tid : BitVec 8) (f : Frame ι) : Stage → Prop
  | .acquire => False
  | .loadCount => Waiting shape i o queue.length log
  | .loadLast => Waiting shape i o queue.length log ∧ (f.routine = .barrierWait → f.count = o.count)
  | .loadFirst =>
    (Waiting shape i o queue.length log ∧ (f.routine = .barrierWait → f.count = o.count ∧ f.count ≠ 1)) ∧
      f.last = o.waitQueue ∧ f.last ≠ EMPTY_WAIT_QUEUE
  | .storeSelf =>
    (Waiting shape i o queue.length log ∧ (f.routine = .barrierWait → f.count = o.count ∧ f.count ≠ 1)) ∧
      f.last = o.waitQueue ∧ (f.last ≠ EMPTY_WAIT_QUEUE → f.first = table f.last)
  | .storeLast =>
    (Waiting shape i o queue.length log ∧ (f.routine = .barrierWait → f.count = o.count ∧ f.count ≠ 1)) ∧
      f.last = o.waitQueue ∧ f.last ≠ EMPTY_WAIT_QUEUE ∧ f.first = table f.last ∧ table tid = f.first
  | .storeQueue | .storeCount =>
      Waiting shape i o queue.length log ∧ (f.routine = .barrierWait → f.count = o.count ∧ f.count ≠ 1)
  | .stop => Waiting shape i o (queue.length + 1) log
  | .releaseFirst => Releasing shape i queue.length log ∧ f.last = o.waitQueue ∧ f.last ≠ EMPTY_WAIT_QUEUE
  | .resume => Releasing shape i queue.length log ∧ f.first ≠ f.last
  | .resumeLast => Releasing shape i queue.length log ∧ f.first = f.last
  | .advance | .clearQueue => Releasing shape i queue.length log
  | .resetCount => Releasing shape i queue.length log ∧ queue = []
  | .giveFirst => shape.barrier i = false ∧ f.last = o.waitQueue ∧ f.last ≠ EMPTY_WAIT_QUEUE
  | .giveClear => shape.barrier i = false ∧ f.last = o.waitQueue ∧ queue = [f.first]
  | .giveNext => shape.barrier i = false ∧ f.last = o.waitQueue ∧ ∃ rest, queue = f.first :: rest ∧ rest ≠ []
  | .giveStore => shape.barrier i = false ∧ f.last = o.waitQueue ∧ (∃ rest, queue = f.first :: rest ∧ rest ≠ []) ∧
      f.next = table f.first
  | .giveResume | .setCount => shape.barrier i = false
  | .release => shape.barrier i = true →
      Releasing shape i queue.length log ∧ queue = [] ∧ o.count = shape.initialCount i

/-- An object with its queue, whose lock is free or held. -/
def Phase (s : State ι) (queue : List (BitVec 8)) : Prop :=
  match (s.object i).lock with
  | none => Linked s.table (s.object i).waitQueue queue ∧ Waiting shape i (s.object i) queue.length s.log
  | some tid => ∃ stage f, s.pc tid = .at stage f ∧ f.object = i ∧
      CircularAt s.table (s.object i).waitQueue queue tid f stage ∧
      LocalsAt shape i (s.object i) s.log s.table queue tid f stage

end Invariant

/-- The caller has stored its entry of the table, and has not stopped yet. -/
def Stage.stored : Stage → Bool
  | .storeLast | .storeQueue | .storeCount | .stop => true
  | _ => false

/-- A tasklet that has not stored its entry of the table since it was resumed. -/
def Fresh (pc : Pc ι) : Prop :=
  match pc with
  | .running => True
  | .at stage _ => stage.stored = false
  | .stopped _ => False

/-- What the code keeps, with the queues of the objects. -/
structure Kept (shape : Shape ι) (s : State ι) (queue : ι → List (BitVec 8)) : Prop where
  stopped : ∀ tid i, tid ∈ queue i ↔ s.pc tid = .stopped i
  tasklets : s.pc EMPTY_WAIT_QUEUE = .running
  holder : ∀ tid stage f, s.pc tid = .at stage f → stage ≠ .acquire → (s.object f.object).lock = some tid
  fits : ∀ tid stage f, s.pc tid = .at stage f → (f.routine = .barrierWait ↔ shape.barrier f.object = true)
  initialCount : ∀ i, (s.object i).initialCount = shape.initialCount i
  phase : ∀ i, Phase shape i s (queue i)
  fresh : ∀ tid f, s.pc tid = .at .advance f → Fresh (s.pc f.first)
  order : ∀ i, logged s.log .stopped i = logged s.log .resumed i ++ queue i

section Frames
variable {shape : Shape ι} {i : ι} {o : Object} {log log' : Log ι} {table table' : BitVec 8 → BitVec 8}
  {head first last tid : BitVec 8} {queue : List (BitVec 8)} {f : Frame ι} {stage : Stage} {s t : State ι}
    {waiting : Nat}

theorem Linked.congr (linked : Linked table head queue) (same : ∀ x ∈ queue, table' x = table x) :
    Linked table' head queue :=
  ⟨linked.1.congr same, linked.2⟩

theorem Rest.congr (rest : Rest table queue first last) (same : ∀ x ∈ queue, table' x = table x) :
    Rest table' queue first last := by
  obtain ⟨nodup, head, final, chain⟩ := rest
  refine ⟨nodup, head, final, ?_⟩
  exact chain.imp_of_mem_imp fun x y inside _ link => (same x inside).trans link

omit [DecidableEq ι] in
/-- The entries that the queue of an object depends on while its lock is held. -/
theorem CircularAt.congr (circular : CircularAt table head queue tid f stage)
    (same : ∀ x, x ∈ queue ∨ x = tid ∨ stage = .advance ∧ x = f.first → table' x = table x) :
    CircularAt table' head queue tid f stage := by
  have members (x : BitVec 8) (inside : x ∈ queue) : table' x = table x := same x (.inl inside)
  have caller (x : BitVec 8) (inside : x ∈ queue ++ [tid]) : table' x = table x := by
    rcases List.mem_append.mp inside with member | own
    · exact members x member
    · exact same x (.inr (.inl (List.mem_singleton.mp own)))
  cases stage with
  | storeQueue => exact ⟨circular.1.congr caller, circular.2⟩
  | storeCount | stop => exact Linked.congr circular caller
  | resume | resumeLast => exact Rest.congr circular members
  | advance =>
    have read : table' f.first = table f.first := same f.first (.inr (.inr ⟨rfl, rfl⟩))
    have rest := Rest.congr circular members
    rwa [← read] at rest
  | clearQueue => exact circular
  | giveResume =>
    obtain ⟨rest, split, fresh, linked⟩ := circular
    exact ⟨rest, split, fresh, linked.congr fun x inside => members x (split ▸ List.mem_cons_of_mem _ inside)⟩
  | _ => exact Linked.congr circular members

theorem Linked.last_mem (linked : Linked table head queue) (some_member : head ≠ EMPTY_WAIT_QUEUE) :
    head ∈ queue := by
  rcases List.eq_nil_or_concat' queue with rfl | ⟨front, last, rfl⟩
  · exact absurd linked.2 some_member
  · rw [linked.2, List.getLast?_concat]
    exact List.mem_append_right _ (List.mem_singleton_self _)

theorem Linked.empty_iff (linked : Linked table head queue) (tasklets : EMPTY_WAIT_QUEUE ∉ queue) :
    head = EMPTY_WAIT_QUEUE ↔ queue = [] := by
  constructor
  · intro none_waits
    rcases List.eq_nil_or_concat' queue with rfl | ⟨front, last, rfl⟩
    · rfl
    · rw [linked.2, List.getLast?_concat] at none_waits
      obtain rfl : last = EMPTY_WAIT_QUEUE := none_waits
      exact absurd (List.mem_append_right _ (List.mem_singleton_self _)) tasklets
  · rintro rfl
    exact linked.2

/-- The last one of a circular queue leads to the first one. -/
theorem Linked.rest (linked : Linked table head queue) (some_member : head ≠ EMPTY_WAIT_QUEUE) :
    Rest table queue (table head) head := by
  rcases List.eq_nil_or_concat' queue with rfl | ⟨front, last, rfl⟩
  · exact absurd linked.2 some_member
  · obtain ⟨ring, named⟩ := linked
    obtain rfl : head = last := by rw [named, List.getLast?_concat]; rfl
    obtain ⟨first, at_head⟩ : ∃ first, (front ++ [head]).head? = some first := by
      cases front <;> exact ⟨_, rfl⟩
    refine ⟨ring.nodup, ?_, List.getLast?_concat, ?_⟩
    · rw [ring.table_last at_head, at_head]
    · exact (List.isChain_append.mp (ring.links first at_head)).1

theorem Rest.tail (rest : Rest table queue first last) (more : first ≠ last) :
    ∃ others, queue = first :: others ∧ first ∉ others ∧ Rest table others (table first) last := by
  obtain ⟨nodup, head, final, chain⟩ := rest
  obtain ⟨others, rfl⟩ := List.head?_eq_some_iff.mp head
  obtain ⟨fresh, distinct⟩ := List.nodup_cons.mp nodup
  cases others with
  | nil => exact absurd (Option.some.inj final) more
  | cons second others =>
    obtain ⟨link, chain⟩ := List.isChain_cons_cons.mp chain
    exact ⟨_, rfl, fresh, distinct, congrArg some link.symm, by rwa [List.getLast?_cons_cons] at final, chain⟩

theorem Rest.single (rest : Rest table queue first first) : queue = [first] := by
  obtain ⟨nodup, head, final, _⟩ := rest
  obtain ⟨others, rfl⟩ := List.head?_eq_some_iff.mp head
  rcases List.eq_nil_or_concat' others with rfl | ⟨front, last, rfl⟩
  · rfl
  · rw [← List.cons_append, List.getLast?_concat] at final
    obtain rfl := Option.some.inj final
    exact absurd (List.mem_append_right _ (List.mem_singleton_self _)) (List.nodup_cons.mp nodup).1

theorem times_eq (same : ∀ kind, logged log' kind i = logged log kind i) (kind : Kind) :
    times log' kind i = times log kind i := by
  rw [times, same, times]

theorem LocalsAt.congr (locals : LocalsAt shape i o log table queue tid f stage)
    (circular : CircularAt table o.waitQueue queue tid f stage)
    (same : ∀ x, x ∈ queue ∨ x = tid → table' x = table x)
    (logs : ∀ kind, logged log' kind i = logged log kind i) : LocalsAt shape i o log' table' queue tid f stage := by
  have last (linked : Linked table o.waitQueue queue) (named : f.last = o.waitQueue)
      (some_member : f.last ≠ EMPTY_WAIT_QUEUE) : table' f.last = table f.last := by
    rw [named] at some_member ⊢
    exact same _ (.inl (linked.last_mem some_member))
  have counts := times_eq logs
  cases stage <;> simp only [LocalsAt, Waiting, Releasing, counts] at locals ⊢ <;> try exact locals
  case storeSelf =>
    obtain ⟨accounts, named, read⟩ := locals
    exact ⟨accounts, named, fun some_member => (read some_member).trans (last circular named some_member).symm⟩
  case storeLast =>
    obtain ⟨accounts, named, some_member, read, own⟩ := locals
    exact ⟨accounts, named, some_member, read.trans (last circular named some_member).symm,
      (same tid (.inr rfl)).trans own⟩
  case giveStore =>
    obtain ⟨sem, named, ⟨rest, split, more⟩, read⟩ := locals
    exact ⟨sem, named, ⟨rest, split, more⟩,
      read.trans (same f.first (.inl (split ▸ List.mem_cons_self))).symm⟩

/-- An object is not touched by a step that leaves what its queue depends on. -/
theorem Phase.congr (phase : Phase shape i s queue) (object : t.object i = s.object i)
    (logs : ∀ kind, logged t.log kind i = logged s.log kind i)
    (pc : ∀ holder, (s.object i).lock = some holder → t.pc holder = s.pc holder)
    (same : ∀ x, x ∈ queue ∨ (s.object i).lock = some x ∨
      (∃ holder g, (s.object i).lock = some holder ∧ s.pc holder = .at .advance g ∧ x = g.first) →
        t.table x = s.table x) : Phase shape i t queue := by
  unfold Phase at phase ⊢
  rw [object]
  cases lock : (s.object i).lock with
  | none =>
    simp only [lock] at phase
    obtain ⟨linked, waits⟩ := phase
    refine ⟨linked.congr fun x inside => same x (.inl inside), ?_⟩
    simpa only [Waiting, times_eq logs] using waits
  | some holder =>
    simp only [lock] at phase
    obtain ⟨stage, f, at_pc, object, circular, locals⟩ := phase
    refine ⟨stage, f, (pc holder lock).trans at_pc, object, circular.congr fun x which => same x ?_,
      locals.congr circular (fun x which => same x ?_) logs⟩
    · rcases which with inside | rfl | ⟨rfl, rfl⟩
      · exact .inl inside
      · exact .inr (.inl lock)
      · exact .inr (.inr ⟨holder, f, lock, at_pc, rfl⟩)
    · rcases which with inside | rfl
      · exact .inl inside
      · exact .inr (.inl lock)

end Frames

section Steps
variable {shape : Shape ι} {s t : State ι} {queue : ι → List (BitVec 8)} {i j : ι} {tid : BitVec 8} {f f' : Frame ι}
  {stage stage' : Stage}

/-- No releasing loop is about to read the entry of a tasklet. -/
def State.Unread (s : State ι) (tid : BitVec 8) : Prop :=
  ∀ other g, s.pc other = .at .advance g → g.first ≠ tid

theorem Kept.lock_pc (kept : Kept shape s queue) {holder : BitVec 8} (lock : (s.object j).lock = some holder) :
    ∃ stage f, s.pc holder = .at stage f ∧ f.object = j := by
  have phase := kept.phase j
  simp only [Phase, lock] at phase
  obtain ⟨stage, f, at_pc, object, _⟩ := phase
  exact ⟨stage, f, at_pc, object⟩

/-- A step of a tasklet at one object leaves all others. -/
theorem Kept.others (kept : Kept shape s queue) (ne : j ≠ i) (active : ∀ k, s.pc tid ≠ .stopped k)
    (mine : ∀ stage f, s.pc tid = .at stage f → f.object = i) (object : t.object j = s.object j)
    (logs : ∀ kind, logged t.log kind j = logged s.log kind j)
    (pc : ∀ x, x ≠ tid → x ∉ queue i → t.pc x = s.pc x)
    (table : ∀ x, x ≠ tid → x ∉ queue i → t.table x = s.table x)
    (own : t.table tid = s.table tid ∨ s.Unread tid) : Phase shape j t (queue j) := by
  have holder_ne {holder : BitVec 8} (lock : (s.object j).lock = some holder) : holder ≠ tid ∧
      holder ∉ queue i := by
    obtain ⟨stage, f, at_pc, object⟩ := kept.lock_pc lock
    constructor
    · rintro rfl
      exact ne (object.symm.trans (mine stage f at_pc))
    · intro inside
      rw [kept.stopped, at_pc] at inside
      cases inside
  refine (kept.phase j).congr object logs (fun holder lock => pc holder (holder_ne lock).1 (holder_ne lock).2) ?_
  rintro x (inside | lock | ⟨holder, g, lock, at_pc, rfl⟩)
  · have stopped := (kept.stopped x j).mp inside
    refine table x ?_ fun other => ?_
    · rintro rfl
      exact active j stopped
    · rw [kept.stopped, stopped] at other
      exact ne (Pc.stopped.inj other)
  · exact table x (holder_ne lock).1 (holder_ne lock).2
  · have fresh := kept.fresh holder g at_pc
    by_cases same : g.first = tid
    · rcases own with kept_entry | unread
      · rw [same]
        exact kept_entry
      · exact absurd same (unread holder g at_pc)
    · refine table g.first same fun inside => ?_
      rw [(kept.stopped g.first i).mp inside] at fresh
      exact fresh

/-- A step inside a call that leaves all queues. -/
theorem Kept.internal (kept : Kept shape s queue) (at_pc : s.pc tid = .at stage f) (held : stage ≠ .acquire)
    (same : f'.object = f.object ∧ f'.routine = f.routine) (plain : stage' ≠ .advance)
    (objects : ∀ j, j ≠ f.object → t.object j = s.object j)
    (lock : (t.object f.object).lock = (s.object f.object).lock)
    (declared : (t.object f.object).initialCount = (s.object f.object).initialCount)
    (pc : t.pc = Function.update s.pc tid (.at stage' f'))
    (log : t.log = s.log ∨ t.log = s.log ++ [⟨.opened, tid, f.object⟩])
    (table : ∀ x, x ≠ tid → x ∉ queue f.object → t.table x = s.table x)
    (own : t.table tid = s.table tid ∨ s.Unread tid)
    (stored : stage'.stored = true → stage.stored = true ∨ s.Unread tid)
    (circular : CircularAt t.table (t.object f.object).waitQueue (queue f.object) tid f' stage')
    (locals : LocalsAt shape f.object (t.object f.object) t.log t.table (queue f.object) tid f' stage') :
    Kept shape t queue := by
  have holds := kept.holder tid stage f at_pc held
  have active (k : ι) : s.pc tid ≠ .stopped k := by simp [at_pc]
  have mine (stage₁ : Stage) (f₁ : Frame ι) (at_pc₁ : s.pc tid = .at stage₁ f₁) : f₁.object = f.object := by
    rw [at_pc] at at_pc₁
    cases at_pc₁
    rfl
  have logs (kind : Kind) (j : ι) (other : kind ≠ .opened ∨ j ≠ f.object) :
      logged t.log kind j = logged s.log kind j := by
    rcases log with same | more
    · rw [same]
    · rw [more, logged_concat, if_neg, List.append_nil]
      rintro ⟨rfl, rfl⟩
      simp at other
  have pc_ne (x : BitVec 8) (ne : x ≠ tid) : t.pc x = s.pc x := by rw [pc, Function.update_of_ne ne]
  have pc_self : t.pc tid = .at stage' f' := by rw [pc, Function.update_self]
  refine ⟨fun x j => ?_, ?_, fun x stage₁ f₁ at_pc₁ past => ?_, fun x stage₁ f₁ at_pc₁ => ?_, fun j => ?_,
    fun j => ?_, fun x g at_pc₁ => ?_, fun j => ?_⟩
  · rw [kept.stopped]
    by_cases caller : x = tid
    · subst caller
      simp [at_pc, pc_self]
    · rw [pc_ne x caller]
  · rw [pc_ne, kept.tasklets]
    rintro rfl
    rw [kept.tasklets] at at_pc
    cases at_pc
  · by_cases caller : x = tid
    · subst caller
      obtain ⟨rfl, rfl⟩ := Pc.at.inj (pc_self.symm.trans at_pc₁)
      rw [same.1, lock, holds]
    · rw [pc_ne x caller] at at_pc₁
      have theirs := kept.holder x stage₁ f₁ at_pc₁ past
      by_cases here : f₁.object = f.object
      · rw [here, holds] at theirs
        exact absurd (Option.some.inj theirs).symm caller
      · rw [objects _ here, theirs]
  · by_cases caller : x = tid
    · subst caller
      obtain ⟨rfl, rfl⟩ := Pc.at.inj (pc_self.symm.trans at_pc₁)
      rw [same.1, same.2]
      exact kept.fits x stage f at_pc
    · rw [pc_ne x caller] at at_pc₁
      exact kept.fits x stage₁ f₁ at_pc₁
  · by_cases here : j = f.object
    · subst here
      rw [declared, kept.initialCount]
    · rw [objects j here, kept.initialCount]
  · by_cases here : j = f.object
    · subst here
      simp only [Phase, lock, holds]
      exact ⟨stage', f', pc_self, same.1, circular, locals⟩
    · exact kept.others here active mine (objects j here) (fun kind => logs kind j (.inr here))
        (fun x ne _ => pc_ne x ne) table own
  · have other : x ≠ tid := by
      rintro rfl
      obtain ⟨rfl, _⟩ := Pc.at.inj (pc_self.symm.trans at_pc₁)
      exact plain rfl
    rw [pc_ne x other] at at_pc₁
    have fresh := kept.fresh x g at_pc₁
    by_cases caller : g.first = tid
    · rw [caller, pc_self]
      rw [caller, at_pc] at fresh
      by_contra storing
      rcases stored (by simpa [Fresh] using storing) with before | unread
      · simp [Fresh, before] at fresh
      · exact unread x g at_pc₁ caller
    · rwa [pc_ne _ caller]
  · rw [logs .stopped j (.inl (by decide)), logs .resumed j (.inl (by decide)), kept.order]

/-- The first one of a queue is resumed. -/
theorem Kept.resumed {rest : List (BitVec 8)} (stage' : Stage) (kept : Kept shape s queue)
    (at_pc : s.pc tid = .at stage f)
    (held : stage ≠ .acquire) (members : queue f.object = f.first :: rest) (fresh : f.first ∉ rest)
    (after : stage'.stored = false)
    (circular : CircularAt s.table (s.object f.object).waitQueue rest tid f stage')
    (locals : LocalsAt shape f.object (s.object f.object) (s.log ++
      [⟨.resumed, f.first, f.object⟩]) s.table rest tid f
      stage') :
    s.resume f.first f.object = some ((s.setPc f.first .running).note .resumed f.first f.object) ∧
      Kept shape (((s.setPc f.first .running).note .resumed f.first f.object).setPc tid (.at stage' f))
        (Function.update queue f.object rest) := by
  have stopped : s.pc f.first = .stopped f.object := (kept.stopped _ _).mp (members ▸ List.mem_cons_self)
  have other : f.first ≠ tid := by
    intro same
    rw [same, at_pc] at stopped
    cases stopped
  have holds := kept.holder tid stage f at_pc held
  have active (k : ι) : s.pc tid ≠ .stopped k := by simp [at_pc]
  have mine (stage₁ : Stage) (f₁ : Frame ι) (at_pc₁ : s.pc tid = .at stage₁ f₁) : f₁.object = f.object := by
    rw [at_pc] at at_pc₁
    cases at_pc₁
    rfl
  refine ⟨by rw [State.resume, stopped], ?_⟩
  generalize result : ((s.setPc f.first .running).note .resumed f.first f.object).setPc tid (.at stage' f) = t
  have object : t.object = s.object := by rw [← result]; rfl
  have table : t.table = s.table := by rw [← result]; rfl
  have log : t.log = s.log ++ [⟨.resumed, f.first, f.object⟩] := by rw [← result]; rfl
  have pc_self : t.pc tid = .at stage' f := by rw [← result]; exact Function.update_self _ _ _
  have pc_first : t.pc f.first = .running := by
    rw [← result]
    exact (Function.update_of_ne other _ _).trans (Function.update_self _ _ _)
  have pc_ne (x : BitVec 8) (ne : x ≠ tid) (ne_first : x ≠ f.first) : t.pc x = s.pc x := by
    rw [← result]
    exact (Function.update_of_ne ne _ _).trans (Function.update_of_ne ne_first _ _)
  have logs (kind : Kind) (j : ι) (different : kind ≠ .resumed ∨ j ≠ f.object) :
      logged t.log kind j = logged s.log kind j := by
    rw [log, logged_concat, if_neg, List.append_nil]
    rintro ⟨rfl, rfl⟩
    simp at different
  refine ⟨fun x j => ?_, ?_, fun x stage₁ f₁ at_pc₁ past => ?_, fun x stage₁ f₁ at_pc₁ => ?_, fun j => ?_,
    fun j => ?_, fun x g at_pc₁ => ?_, fun j => ?_⟩
  · by_cases caller : x = tid
    · subst caller
      have outside : x ∉ queue j := by simp [kept.stopped, at_pc]
      rw [pc_self]
      by_cases here : j = f.object
      · subst here
        rw [members] at outside
        simpa using fun inside => outside (List.mem_cons_of_mem _ inside)
      · simpa [here] using outside
    · by_cases target : x = f.first
      · subst target
        rw [pc_first]
        by_cases here : j = f.object
        · subst here
          simpa using fresh
        · have outside : f.first ∉ queue j := by
            rw [kept.stopped, stopped]
            exact fun same => here (Pc.stopped.inj same).symm
          simpa [here] using outside
      · rw [pc_ne x caller target, ← kept.stopped]
        by_cases here : j = f.object
        · subst here
          simp [members, target]
        · simp [here]
  · rw [pc_ne, kept.tasklets]
    · rintro rfl
      rw [kept.tasklets] at at_pc
      cases at_pc
    · intro same
      rw [← same, kept.tasklets] at stopped
      cases stopped
  · rw [object]
    by_cases caller : x = tid
    · subst caller
      obtain ⟨rfl, rfl⟩ := Pc.at.inj (pc_self.symm.trans at_pc₁)
      exact holds
    · by_cases target : x = f.first
      · subst target
        rw [pc_first] at at_pc₁
        cases at_pc₁
      · rw [pc_ne x caller target] at at_pc₁
        exact kept.holder x stage₁ f₁ at_pc₁ past
  · by_cases caller : x = tid
    · subst caller
      obtain ⟨rfl, rfl⟩ := Pc.at.inj (pc_self.symm.trans at_pc₁)
      exact kept.fits x stage f at_pc
    · by_cases target : x = f.first
      · subst target
        rw [pc_first] at at_pc₁
        cases at_pc₁
      · rw [pc_ne x caller target] at at_pc₁
        exact kept.fits x stage₁ f₁ at_pc₁
  · rw [object, kept.initialCount]
  · by_cases here : j = f.object
    · subst here
      simp only [Phase, object, holds, Function.update_self]
      exact ⟨stage', f, pc_self, rfl, by rw [table]; exact circular, by rw [table, log]; exact locals⟩
    · rw [Function.update_of_ne here]
      refine kept.others here active mine (by rw [object]) (fun kind => logs kind j (.inr here))
        (fun x ne outside => pc_ne x ne fun same => outside ?_) (fun x _ _ => by rw [table]) (.inl (by rw [table]))
      rw [same, members]
      exact List.mem_cons_self
  · have unread (old : Fresh (s.pc g.first)) : Fresh (t.pc g.first) := by
      by_cases caller : g.first = tid
      · rw [caller, pc_self]
        exact after
      · by_cases target : g.first = f.first
        · rw [target, pc_first]
          trivial
        · rwa [pc_ne _ caller target]
    by_cases caller : x = tid
    · subst caller
      obtain ⟨_, rfl⟩ := Pc.at.inj (pc_self.symm.trans at_pc₁)
      rw [pc_first]
      trivial
    · by_cases target : x = f.first
      · subst target
        rw [pc_first] at at_pc₁
        cases at_pc₁
      · rw [pc_ne x caller target] at at_pc₁
        exact unread (kept.fresh x g at_pc₁)
  · rw [logs .stopped j (.inl (by decide)), kept.order]
    by_cases here : j = f.object
    · subst here
      rw [log, logged_concat_self, Function.update_self, members, List.append_assoc]
      rfl
    · rw [logs .resumed j (.inr here), Function.update_of_ne here]

/-- A tasklet takes a free lock, or releases the one it holds. -/
theorem Kept.turn {queue' : ι → List (BitVec 8)} {p : Pc ι} (kept : Kept shape s queue)
    (valid : tid ≠ EMPTY_WAIT_QUEUE)
    (active : ∀ k, s.pc tid ≠ .stopped k) (mine : ∀ stage f, s.pc tid = .at stage f → f.object = i)
    (free : ∀ holder, (s.object i).lock = some holder → holder = tid)
    (objects : ∀ j, j ≠ i → t.object j = s.object j)
    (declared : (t.object i).initialCount = (s.object i).initialCount)
    (pc : t.pc = Function.update s.pc tid p) (table : t.table = s.table)
    (logs : ∀ kind j, j ≠ i → logged t.log kind j = logged s.log kind j)
    (holder : ∀ stage f, p = .at stage f → (t.object f.object).lock = some tid)
    (fits : ∀ stage f, p = .at stage f → (f.routine = .barrierWait ↔ shape.barrier f.object = true))
    (plain : ∀ f, p ≠ .at .advance f) (fresh : Fresh (s.pc tid) → Fresh p)
    (stopped : ∀ j, tid ∈ queue' j ↔ p = .stopped j) (stays : ∀ x j, x ≠ tid → (x ∈ queue' j ↔ x ∈ queue j))
    (queues : ∀ j, j ≠ i → queue' j = queue j) (phase : Phase shape i t (queue' i))
    (order : logged t.log .stopped i = logged t.log .resumed i ++ queue' i) : Kept shape t queue' := by
  have pc_ne (x : BitVec 8) (ne : x ≠ tid) : t.pc x = s.pc x := by rw [pc, Function.update_of_ne ne]
  have pc_self : t.pc tid = p := by rw [pc, Function.update_self]
  refine ⟨fun x j => ?_, ?_, fun x stage₁ f₁ at_pc₁ past => ?_, fun x stage₁ f₁ at_pc₁ => ?_, fun j => ?_,
    fun j => ?_, fun x g at_pc₁ => ?_, fun j => ?_⟩
  · by_cases caller : x = tid
    · subst caller
      rw [stopped, pc_self]
    · rw [stays x j caller, kept.stopped, pc_ne x caller]
  · rw [pc_ne _ valid.symm, kept.tasklets]
  · by_cases caller : x = tid
    · subst caller
      exact holder stage₁ f₁ (pc_self.symm.trans at_pc₁)
    · rw [pc_ne x caller] at at_pc₁
      have theirs := kept.holder x stage₁ f₁ at_pc₁ past
      by_cases here : f₁.object = i
      · rw [here] at theirs
        exact absurd (free x theirs) caller
      · rw [objects _ here, theirs]
  · by_cases caller : x = tid
    · subst caller
      exact fits stage₁ f₁ (pc_self.symm.trans at_pc₁)
    · rw [pc_ne x caller] at at_pc₁
      exact kept.fits x stage₁ f₁ at_pc₁
  · by_cases here : j = i
    · subst here
      rw [declared, kept.initialCount]
    · rw [objects j here, kept.initialCount]
  · by_cases here : j = i
    · subst here
      exact phase
    · rw [queues j here]
      exact kept.others here active mine (objects j here) (fun kind => logs kind j here)
        (fun x ne _ => pc_ne x ne) (fun x _ _ => by rw [table]) (.inl (by rw [table]))
  · have other : x ≠ tid := by
      rintro rfl
      exact plain g (pc_self.symm.trans at_pc₁)
    rw [pc_ne x other] at at_pc₁
    have old := kept.fresh x g at_pc₁
    by_cases caller : g.first = tid
    · rw [caller, pc_self]
      rw [caller] at old
      exact fresh old
    · rwa [pc_ne _ caller]
  · by_cases here : j = i
    · subst here
      exact order
    · rw [logs .stopped j here, logs .resumed j here, queues j here, kept.order]

/-- A tasklet calls a routine. -/
theorem Kept.call {routine : Routine} (kept : Kept shape s queue) (valid : tid ≠ EMPTY_WAIT_QUEUE)
    (running : s.pc tid = .running) (fits : routine = .barrierWait ↔ shape.barrier i = true) :
    Kept shape (s.setPc tid (.at .acquire ⟨routine, i, 0, 0, 0, 0⟩)) queue := by
  have pc_ne (x : BitVec 8) (ne : x ≠ tid) :
      (s.setPc tid (.at .acquire ⟨routine, i, 0, 0, 0, 0⟩)).pc x = s.pc x := Function.update_of_ne ne _ _
  have pc_self : (s.setPc tid (.at .acquire ⟨routine, i, 0, 0, 0, 0⟩)).pc tid =
      .at .acquire ⟨routine, i, 0, 0, 0, 0⟩ := Function.update_self _ _ _
  refine ⟨fun x j => ?_, ?_, fun x stage₁ f₁ at_pc₁ past => ?_, fun x stage₁ f₁ at_pc₁ => ?_, kept.initialCount,
    fun j => ?_, fun x g at_pc₁ => ?_, kept.order⟩
  · rw [kept.stopped]
    by_cases caller : x = tid
    · subst caller
      rw [running, pc_self]
      simp
    · rw [pc_ne x caller]
  · rw [pc_ne _ valid.symm, kept.tasklets]
  · by_cases caller : x = tid
    · subst caller
      obtain ⟨rfl, _⟩ := Pc.at.inj (pc_self.symm.trans at_pc₁)
      exact absurd rfl past
    · rw [pc_ne x caller] at at_pc₁
      exact kept.holder x stage₁ f₁ at_pc₁ past
  · by_cases caller : x = tid
    · subst caller
      obtain ⟨_, rfl⟩ := Pc.at.inj (pc_self.symm.trans at_pc₁)
      exact fits
    · rw [pc_ne x caller] at at_pc₁
      exact kept.fits x stage₁ f₁ at_pc₁
  · refine (kept.phase j).congr rfl (fun _ => rfl) (fun holder lock => pc_ne holder ?_) fun _ _ => rfl
    rintro rfl
    obtain ⟨stage₁, f₁, at_pc₁, _⟩ := kept.lock_pc lock
    rw [running] at at_pc₁
    cases at_pc₁
  · have other : x ≠ tid := by
      rintro rfl
      cases pc_self.symm.trans at_pc₁
    rw [pc_ne x other] at at_pc₁
    by_cases caller : g.first = tid
    · rw [caller, pc_self]
      rfl
    · rw [pc_ne _ caller]
      exact kept.fresh x g at_pc₁

end Steps

end Barriers

end Upmem.Barrier
