import Upmem.BarrierQueues

namespace Upmem.Barrier
open Handshake (EMPTY_WAIT_QUEUE)
open Transitions WaitQueue EventLog

section Barriers
variable {ι : Type} [DecidableEq ι]

section Runs
variable {shape : Shape ι} {s t : State ι} {queue : ι → List (BitVec 8)} {i j : ι} {tid : BitVec 8} {f f' : Frame ι}
  {stage stage' : Stage}

/-- The parts of the invariant about the object whose lock a tasklet holds. -/
theorem Kept.held (kept : Kept shape s queue) (at_pc : s.pc tid = .at stage f) (past : stage ≠ .acquire) :
    (s.object f.object).lock = some tid ∧
      CircularAt s.table (s.object f.object).waitQueue (queue f.object) tid f stage ∧
      LocalsAt shape f.object (s.object f.object) s.log s.table (queue f.object) tid f stage := by
  have lock := kept.holder tid stage f at_pc past
  have phase := kept.phase f.object
  simp only [Phase, lock] at phase
  obtain ⟨stage₁, f₁, at_pc₁, _, circular, locals⟩ := phase
  obtain ⟨rfl, rfl⟩ := Pc.at.inj (at_pc.symm.trans at_pc₁)
  exact ⟨lock, circular, locals⟩

theorem Kept.acquire (kept : Kept shape s queue) (valid : tid ≠ EMPTY_WAIT_QUEUE)
    (at_pc : s.pc tid = .at .acquire f)
    (free : (s.object f.object).lock = none) :
    Kept shape ((s.setObject f.object { s.object f.object with lock := some tid }).setPc tid (.at .loadCount f))
      queue := by
  have phase := kept.phase f.object
  simp only [Phase, free] at phase
  refine kept.turn valid (p := .at .loadCount f) (i := f.object) (by simp [at_pc]) ?_ (by simp [free])
    (fun j ne => Function.update_of_ne ne _ _) ?_ rfl rfl (fun _ _ _ => rfl) ?_ ?_ (by simp) (fun _ => rfl) ?_
    (fun _ _ _ => Iff.rfl) (fun _ _ => rfl) ?_ (kept.order _)
  · intro stage₁ f₁ at_pc₁
    rw [at_pc] at at_pc₁
    cases at_pc₁
    rfl
  · simp [State.setObject, State.setPc]
  · rintro stage₁ f₁ same
    cases same
    simp [State.setObject, State.setPc]
  · rintro stage₁ f₁ same
    cases same
    exact kept.fits tid .acquire f at_pc
  · intro j
    simp [kept.stopped, at_pc]
  · simp only [Phase, State.setPc, State.setObject, Function.update_self]
    exact ⟨.loadCount, f, rfl, rfl, phase.1, phase.2⟩

/-- A load, or a branch. -/
theorem Kept.read (kept : Kept shape s queue) (at_pc : s.pc tid = .at stage f) (held : stage ≠ .acquire)
    (same : f'.object = f.object ∧ f'.routine = f.routine) (plain : stage' ≠ .advance)
    (stored : stage'.stored = true → stage.stored = true)
    (circular : CircularAt s.table (s.object f.object).waitQueue (queue f.object) tid f' stage')
    (locals : LocalsAt shape f.object (s.object f.object) s.log s.table (queue f.object) tid f' stage') :
    Kept shape (s.setPc tid (.at stage' f')) queue :=
  kept.internal at_pc held same plain (fun _ _ => rfl) rfl rfl rfl (.inl rfl) (fun _ _ _ => rfl) (.inl rfl)
    (fun now => .inl (stored now)) circular locals

/-- The last arrival at a barrier is recorded. -/
theorem Kept.opens (kept : Kept shape s queue) (at_pc : s.pc tid = .at stage f) (held : stage ≠ .acquire)
    (same : f'.object = f.object ∧ f'.routine = f.routine) (plain : stage' ≠ .advance)
    (stored : stage'.stored = true → stage.stored = true)
    (circular : CircularAt s.table (s.object f.object).waitQueue (queue f.object) tid f' stage')
    (locals : LocalsAt shape f.object (s.object f.object) (s.log ++ [⟨.opened, tid, f.object⟩]) s.table
      (queue f.object) tid f' stage') :
    Kept shape ((s.note .opened tid f.object).setPc tid (.at stage' f')) queue :=
  kept.internal at_pc held same plain (fun _ _ => rfl) rfl rfl rfl (.inr rfl) (fun _ _ _ => rfl) (.inl rfl)
    (fun now => .inl (stored now)) circular locals

/-- A store to the object. -/
theorem Kept.assigned {o : Object} (kept : Kept shape s queue) (at_pc : s.pc tid = .at stage f)
    (held : stage ≠ .acquire)
    (plain : stage' ≠ .advance) (lock : o.lock = (s.object f.object).lock)
    (declared : o.initialCount = (s.object f.object).initialCount)
    (stored : stage'.stored = true → stage.stored = true)
    (circular : CircularAt s.table o.waitQueue (queue f.object) tid f stage')
    (locals : LocalsAt shape f.object o s.log s.table (queue f.object) tid f stage') :
    Kept shape ((s.setObject f.object o).setPc tid (.at stage' f)) queue := by
  have now : ((s.setObject f.object o).setPc tid (.at stage' f)).object f.object = o := Function.update_self _ _ _
  refine kept.internal at_pc held ⟨rfl, rfl⟩ plain (fun j ne => Function.update_of_ne ne _ _) ?_ ?_ rfl (.inl rfl)
    (fun _ _ _ => rfl) (.inl rfl) (fun now => .inl (stored now)) ?_ ?_
  · rw [now, lock]
  · rw [now, declared]
  · rw [now]
    exact circular
  · rw [now]
    exact locals

/-- A store to the table, to the entry of the caller or of a member of the queue. -/
theorem Kept.linked {entry value : BitVec 8} (kept : Kept shape s queue) (at_pc : s.pc tid = .at stage f)
    (held : stage ≠ .acquire) (plain : stage' ≠ .advance)
    (which : entry = tid ∧ s.Unread tid ∨ entry ∈ queue f.object ∧ (stage'.stored = true → stage.stored = true))
    (circular : CircularAt (Function.update s.table entry value) (s.object f.object).waitQueue
      (queue f.object) tid f
      stage')
    (locals : LocalsAt shape f.object (s.object f.object) s.log (Function.update s.table entry value)
      (queue f.object)
      tid f stage') :
    Kept shape ((s.store entry value).setPc tid (.at stage' f)) queue := by
  refine kept.internal at_pc held ⟨rfl, rfl⟩ plain (fun _ _ => rfl) rfl rfl rfl (.inl rfl)
    (fun x ne outside => ?_) ?_
    (fun now => ?_) circular locals
  · refine Function.update_of_ne ?_ _ _
    rintro rfl
    rcases which with ⟨rfl, _⟩ | ⟨inside, _⟩
    · exact ne rfl
    · exact outside inside
  · rcases which with ⟨_, unread⟩ | ⟨inside, _⟩
    · exact .inr unread
    · refine .inl (Function.update_of_ne ?_ _ _)
      rintro rfl
      rw [kept.stopped, at_pc] at inside
      cases inside
  · rcases which with ⟨_, unread⟩ | ⟨_, stored⟩
    · exact .inr unread
    · exact .inl (stored now)

theorem Kept.stop (kept : Kept shape s queue) (valid : tid ≠ EMPTY_WAIT_QUEUE) (at_pc : s.pc tid = .at .stop f) :
    Kept shape (((s.setObject f.object { s.object f.object with lock := none }).setPc tid (.stopped f.object)).note
      .stopped tid f.object) (Function.update queue f.object (queue f.object ++ [tid])) := by
  obtain ⟨lock, circular, locals⟩ := kept.held at_pc (by decide)
  have outside (j : ι) : tid ∉ queue j := by simp [kept.stopped, at_pc]
  refine kept.turn valid (p := .stopped f.object) (i := f.object) (by simp [at_pc]) ?_ (by simp [lock])
    (fun j ne => Function.update_of_ne ne _ _) ?_ rfl rfl (fun kind j ne => logged_concat_of_object ne.symm)
    (by simp) (by simp) (by simp) (fun old => ?_) (fun j => ?_) (fun x j ne => ?_)
    (fun j ne => Function.update_of_ne ne _ _) ?_ ?_
  · intro stage₁ f₁ at_pc₁
    rw [at_pc] at at_pc₁
    cases at_pc₁
    rfl
  · simp [State.setObject, State.setPc, State.note]
  · rw [at_pc] at old
    cases old
  · by_cases here : j = f.object
    · subst here
      simp
    · simp [here, outside, Ne.symm here]
  · by_cases here : j = f.object
    · subst here
      simp [ne]
    · simp [here]
  · simp only [Phase, State.setObject, State.setPc, State.note, Function.update_self]
    refine ⟨circular, ?_⟩
    simpa [LocalsAt, Waiting, times, logged_concat_of_kind] using locals
  · simp only [State.setObject, State.setPc, State.note, Function.update_self]
    rw [logged_concat_self, logged_concat_of_kind (by decide), kept.order, List.append_assoc]

theorem Kept.release (kept : Kept shape s queue) (valid : tid ≠ EMPTY_WAIT_QUEUE)
    (at_pc : s.pc tid = .at .release f)
    (declared : ∀ i, shape.barrier i = true → shape.initialCount i ≠ 0) (kinds : Log ι)
    (log : kinds = if f.routine = .barrierWait then s.log ++ [⟨.closed, tid, f.object⟩] else s.log) :
    Kept shape { (s.setObject f.object { s.object f.object with lock := none }).setPc tid .running with log :=
      kinds }
      queue := by
  obtain ⟨lock, circular, locals⟩ := kept.held at_pc (by decide)
  have outside (j : ι) : tid ∉ queue j := by simp [kept.stopped, at_pc]
  refine kept.turn valid (p := .running) (i := f.object) (by simp [at_pc]) ?_ (by simp [lock])
    (fun j ne => Function.update_of_ne ne _ _) ?_ rfl rfl (fun kind j ne => ?_) (by simp) (by simp) (by simp)
    (fun _ => trivial) (fun j => by simp [outside]) (fun x j ne => Iff.rfl) (fun _ _ => rfl) ?_ ?_
  · intro stage₁ f₁ at_pc₁
    rw [at_pc] at at_pc₁
    cases at_pc₁
    rfl
  · simp [State.setObject, State.setPc]
  · rw [log]
    split
    · exact logged_concat_of_object ne.symm
    · rfl
  · simp only [Phase, State.setObject, State.setPc, Function.update_self]
    refine ⟨circular, fun barrier => ?_⟩
    obtain ⟨⟨_, opened, resumed, _⟩, empty, count⟩ := locals barrier
    have routine := (kept.fits tid .release f at_pc).mpr barrier
    have positive : 0 < (shape.initialCount f.object).toNat := by
      have nonzero := declared f.object barrier
      rw [Nat.pos_iff_ne_zero]
      exact fun zero => nonzero (BitVec.eq_of_toNat_eq zero)
    rw [empty, List.length_nil, Nat.add_zero] at resumed
    rw [log, if_pos routine]
    simp only [times, logged_concat_self, logged_concat_of_kind (show Kind.closed ≠ .opened by decide),
      logged_concat_of_kind (show Kind.closed ≠ .resumed by decide), List.length_append, List.length_singleton] at *
    rw [empty, count, List.length_nil]
    exact ⟨rfl, positive, opened, by rw [resumed, opened]⟩
  · rw [log]
    split
    · rw [logged_concat_of_kind (by decide), logged_concat_of_kind (by decide), kept.order]
    · exact kept.order _

theorem Kept.empty_notMem (kept : Kept shape s queue) (i : ι) : EMPTY_WAIT_QUEUE ∉ queue i := by
  rw [kept.stopped, kept.tasklets]
  exact fun same => nomatch same

theorem Kept.sem {routine : Routine} (kept : Kept shape s queue) (at_pc : s.pc tid = .at stage f)
    (called : f.routine = routine) (other : routine ≠ .barrierWait) : shape.barrier f.object = false := by
  rw [← Bool.not_eq_true, ← kept.fits tid stage f at_pc, called]
  exact other

/-- The last one to enter a barrier opens its release. -/
theorem Kept.last_arrival (kept : Kept shape s queue) (at_pc : s.pc tid = .at .loadLast f)
    (routine : f.routine = .barrierWait) (one : f.count = 1) :
    Kept shape ((s.note .opened tid f.object).setPc tid
      (.at (if (s.object f.object).waitQueue ≠ EMPTY_WAIT_QUEUE then .releaseFirst else .release)
        { f with last := (s.object f.object).waitQueue })) queue := by
  obtain ⟨lock, circular, waits, counted⟩ := kept.held at_pc (by decide)
  have barrier := (kept.fits tid .loadLast f at_pc).mp routine
  obtain ⟨count, positive, opened, resumed⟩ := waits barrier
  have now : (s.object f.object).count = 1 := (counted routine).symm.trans one
  have first : (1 : BitVec 8).toNat = 1 := rfl
  rw [now, first] at count
  have releasing : Releasing shape f.object (queue f.object).length (s.log ++ [⟨.opened, tid, f.object⟩]) := by
    refine ⟨barrier, ?_, ?_, by omega⟩
    all_goals
      simp only [times, logged_concat_self, logged_concat_of_kind (show Kind.opened ≠ .closed by decide),
        logged_concat_of_kind (show Kind.opened ≠ .resumed by decide), List.length_append,
          List.length_singleton] at *
    · rw [opened]
    · rw [resumed, opened, Nat.mul_add, Nat.mul_one]
      omega
  have linked : Linked s.table (s.object f.object).waitQueue (queue f.object) := circular
  have none_waits := linked.empty_iff (kept.empty_notMem f.object)
  split_ifs with some_member
  · exact kept.opens at_pc (by decide) ⟨rfl, rfl⟩ (by decide) (fun now => by cases now) circular
      ⟨releasing, rfl, some_member⟩
  · have empty := none_waits.mp (not_not.mp some_member)
    refine kept.opens at_pc (by decide) ⟨rfl, rfl⟩ (by decide) (fun now => by cases now) circular
      fun _ => ⟨releasing, empty, ?_⟩
    rw [empty, List.length_nil] at count
    exact now.trans (BitVec.eq_of_toNat_eq (by rw [first, ← count]))

/-- A tasklet that has to wait puts itself behind the last one. -/
theorem Kept.storeSelf (kept : Kept shape s queue) (at_pc : s.pc tid = .at .storeSelf f) (unread : s.Unread tid) :
    if f.last = EMPTY_WAIT_QUEUE then Kept shape ((s.store tid tid).setPc tid (.at .storeQueue f)) queue
    else Kept shape ((s.store tid f.first).setPc tid (.at .storeLast f)) queue := by
  obtain ⟨lock, circular, accounts, named, read⟩ := kept.held at_pc (by decide)
  have linked : Linked s.table (s.object f.object).waitQueue (queue f.object) := circular
  have outside : tid ∉ queue f.object := by simp [kept.stopped, at_pc]
  split_ifs with none_waits
  · have empty := (linked.empty_iff (kept.empty_notMem f.object)).mp (named ▸ none_waits)
    refine kept.linked at_pc (by decide) (by decide) (.inl ⟨rfl, unread⟩) ?_ accounts
    rw [empty]
    exact ⟨Ring.single (Function.update_self _ _ _), by rw [← named, none_waits]; rfl⟩
  · have others (x : BitVec 8) (inside : x ∈ queue f.object) :
        Function.update s.table tid f.first x = s.table x :=
      Function.update_of_ne (fun same : x = tid => outside (same ▸ inside)) _ _
    have member : f.last ∈ queue f.object := named ▸ linked.last_mem (named ▸ none_waits)
    refine kept.linked at_pc (by decide) (by decide) (.inl ⟨rfl, unread⟩) (linked.congr others)
      ⟨accounts, named, none_waits, ?_, Function.update_self _ _ _⟩
    rw [others f.last member]
    exact read none_waits

theorem Kept.storeLast (kept : Kept shape s queue) (at_pc : s.pc tid = .at .storeLast f) :
    Kept shape ((s.store f.last tid).setPc tid (.at .storeQueue f)) queue := by
  obtain ⟨lock, circular, accounts, named, some_member, read, own⟩ := kept.held at_pc (by decide)
  have linked : Linked s.table (s.object f.object).waitQueue (queue f.object) := circular
  have outside : tid ∉ queue f.object := by simp [kept.stopped, at_pc]
  have member : f.last ∈ queue f.object := named ▸ linked.last_mem (named ▸ some_member)
  refine kept.linked at_pc (by decide) (by decide) (.inr ⟨member, fun _ => rfl⟩) ⟨?_, linked.2⟩ accounts
  rcases List.eq_nil_or_concat' (queue f.object) with empty | ⟨front, last, split⟩
  · rw [empty] at member
    cases member
  · obtain ⟨ring, at_last⟩ := linked
    rw [split, List.getLast?_concat] at at_last
    obtain rfl : f.last = last := named.trans at_last
    obtain ⟨first, at_head⟩ : ∃ first, (front ++ [f.last]).head? = some first := by
      cases front <;> exact ⟨_, rfl⟩
    rw [split] at ring outside ⊢
    have inserted := ring.insert at_head outside
    rw [← ring.table_last at_head, ← read, ← own, Function.update_eq_self] at inserted
    exact inserted

theorem Kept.storeCount (kept : Kept shape s queue) (at_pc : s.pc tid = .at .storeCount f) :
    Kept shape ((s.setObject f.object { s.object f.object with
      count := if f.routine = .barrierWait then f.count - 1 else f.count }).setPc tid (.at .stop f)) queue := by
  obtain ⟨lock, circular, waits, counted⟩ := kept.held at_pc (by decide)
  refine kept.assigned at_pc (by decide) (by decide) rfl rfl (fun _ => rfl) circular fun barrier => ?_
  have routine := (kept.fits tid .storeCount f at_pc).mpr barrier
  obtain ⟨count, positive, generation⟩ := waits barrier
  obtain ⟨same, more⟩ := counted routine
  have at_least : 1 < f.count.toNat := by
    have ne : f.count.toNat ≠ 1 := fun one => more (BitVec.eq_of_toNat_eq one)
    rw [← same] at positive
    omega
  have less : (f.count - 1).toNat = f.count.toNat - 1 := by
    rw [BitVec.toNat_sub_of_le]
    · rfl
    · exact at_least.le
  rw [if_pos routine]
  refine ⟨?_, ?_, generation⟩
  · rw [← same] at count
    show (f.count - 1).toNat + _ = _
    omega
  · show 0 < (f.count - 1).toNat
    omega

/-- What is left of a queue after its first one has been resumed. -/
theorem Releasing.resumed {first : BitVec 8} {rest : List (BitVec 8)} {log : Log ι}
    (releasing : Releasing shape i (first :: rest).length log) :
    Releasing shape i rest.length (log ++ [⟨.resumed, first, i⟩]) := by
  obtain ⟨barrier, opened, resumed, fits⟩ := releasing
  rw [List.length_cons] at fits
  refine ⟨barrier, ?_, ?_, by omega⟩
  · simpa [times, logged_concat_of_kind] using opened
  · simp only [times, logged_concat_self, logged_concat_of_kind (show Kind.resumed ≠ .opened by decide),
      List.length_append, List.length_cons, List.length_nil] at *
    omega

/-- The store of `sem_give` takes the first one out of the queue. -/
theorem Kept.giveStore (kept : Kept shape s queue) (at_pc : s.pc tid = .at .giveStore f) :
    Kept shape ((s.store f.last f.next).setPc tid (.at .giveResume f)) queue := by
  obtain ⟨lock, circular, sem, named, ⟨rest, split, more⟩, read⟩ := kept.held at_pc (by decide)
  have linked : Linked s.table (s.object f.object).waitQueue (queue f.object) := circular
  obtain ⟨ring, at_last⟩ := linked
  obtain ⟨front, last, rfl⟩ := (List.eq_nil_or_concat' rest).resolve_left more
  rw [split, ← List.cons_append, List.getLast?_concat] at at_last
  obtain rfl : f.last = last := named.trans at_last
  have member : f.last ∈ queue f.object := by
    rw [split]
    exact List.mem_cons_of_mem _ (List.mem_append_right _ (List.mem_singleton_self _))
  rw [split] at ring
  obtain ⟨second, at_head⟩ : ∃ second, (front ++ [f.last]).head? = some second := by
    cases front <;> exact ⟨_, rfl⟩
  have next : f.next = second := by
    obtain ⟨tail, cut⟩ := List.head?_eq_some_iff.mp at_head
    rw [cut] at ring
    rw [read, ring.table_first]
  refine kept.linked at_pc (by decide) (by decide) (.inr ⟨member, fun now => nomatch now⟩)
    ⟨_, split, (List.nodup_cons.mp ring.nodup).1, ?_, ?_⟩ sem
  · rw [next]
    exact ring.remove at_head
  · rw [List.getLast?_concat]
    exact at_last

/-- The count is loaded; a semaphore with a count is left. -/
theorem Kept.loadCount (kept : Kept shape s queue) (at_pc : s.pc tid = .at .loadCount f)
    (taken : s.go tid = some t) :
    ∃ queue', Kept shape t queue' := by
  obtain ⟨lock, circular, waits⟩ := kept.held at_pc (by decide)
  simp only [State.go, at_pc] at taken
  cases called : f.routine with
  | barrierWait =>
    simp only [called] at taken
    cases taken
    exact ⟨queue, kept.read at_pc (by decide) ⟨rfl, called.symm⟩ (by decide) (fun now => nomatch now) circular
      ⟨waits, fun _ => rfl⟩⟩
  | semTake =>
    have sem := kept.sem at_pc called (by decide)
    simp only [called] at taken
    cases taken
    refine ⟨queue, ?_⟩
    split_ifs
    · exact kept.read at_pc (by decide) ⟨rfl, called.symm⟩ (by decide) (fun now => nomatch now) circular
        ⟨waits, fun same => nomatch same⟩
    · exact kept.read at_pc (by decide) ⟨rfl, called.symm⟩ (by decide) (fun now => nomatch now) circular sem
  | semGive =>
    simp only [called] at taken
    cases taken
    exact ⟨queue, kept.read at_pc (by decide) ⟨rfl, called.symm⟩ (by decide) (fun now => nomatch now) circular
      ⟨waits, fun same => nomatch same⟩⟩

/-- The last one of the queue is loaded. The last arrival opens the barrier. -/
theorem Kept.loadLast (kept : Kept shape s queue) (at_pc : s.pc tid = .at .loadLast f) (taken : s.go tid = some t) :
    ∃ queue', Kept shape t queue' := by
  obtain ⟨lock, circular, waits, counted⟩ := kept.held at_pc (by decide)
  simp only [State.go, at_pc] at taken
  cases called : f.routine with
  | barrierWait =>
    by_cases one : f.count = 1
    · have opens := kept.last_arrival at_pc called one
      simp only [called] at opens
      simp only [called, if_pos one] at taken
      cases taken
      exact ⟨queue, opens⟩
    · have count := counted called
      simp only [called, if_neg one] at taken
      cases taken
      refine ⟨queue, ?_⟩
      split_ifs with none_waits
      · exact kept.read at_pc (by decide) ⟨rfl, called.symm⟩ (by decide) (fun now => nomatch now) circular
          ⟨⟨waits, fun _ => ⟨count, one⟩⟩, rfl, fun some_member => absurd none_waits some_member⟩
      · exact kept.read at_pc (by decide) ⟨rfl, called.symm⟩ (by decide) (fun now => nomatch now) circular
          ⟨⟨waits, fun _ => ⟨count, one⟩⟩, rfl, none_waits⟩
  | semTake =>
    simp only [called] at taken
    cases taken
    refine ⟨queue, ?_⟩
    split_ifs with some_member
    · exact kept.read at_pc (by decide) ⟨rfl, called.symm⟩ (by decide) (fun now => nomatch now) circular
        ⟨⟨waits, fun same => nomatch same⟩, rfl, some_member⟩
    · exact kept.read at_pc (by decide) ⟨rfl, called.symm⟩ (by decide) (fun now => nomatch now) circular
        ⟨⟨waits, fun same => nomatch same⟩, rfl, fun other => absurd other some_member⟩
  | semGive =>
    have sem := kept.sem at_pc called (by decide)
    simp only [called] at taken
    cases taken
    refine ⟨queue, ?_⟩
    split_ifs with some_member
    · exact kept.read at_pc (by decide) ⟨rfl, called.symm⟩ (by decide) (fun now => nomatch now) circular
        ⟨sem, rfl, some_member⟩
    · exact kept.read at_pc (by decide) ⟨rfl, called.symm⟩ (by decide) (fun now => nomatch now) circular sem

theorem Kept.loadFirst (kept : Kept shape s queue) (at_pc : s.pc tid = .at .loadFirst f)
    (taken : s.go tid = some t) :
    ∃ queue', Kept shape t queue' := by
  obtain ⟨lock, circular, accounts, named, some_member⟩ := kept.held at_pc (by decide)
  simp only [State.go, at_pc] at taken
  cases taken
  exact ⟨queue, kept.read at_pc (by decide) ⟨rfl, rfl⟩ (by decide) (fun now => nomatch now) circular
    ⟨accounts, named, fun _ => rfl⟩⟩

theorem Kept.storeQueue (kept : Kept shape s queue) (at_pc : s.pc tid = .at .storeQueue f)
    (taken : s.go tid = some t) :
    ∃ queue', Kept shape t queue' := by
  obtain ⟨lock, ⟨ring, _⟩, accounts⟩ := kept.held at_pc (by decide)
  simp only [State.go, at_pc] at taken
  cases taken
  exact ⟨queue, kept.assigned at_pc (by decide) (by decide) rfl rfl (fun _ => rfl)
    ⟨ring, by rw [List.getLast?_concat]; rfl⟩ accounts⟩

/-- The release begins with the first one behind the last. -/
theorem Kept.releaseFirst (kept : Kept shape s queue) (at_pc : s.pc tid = .at .releaseFirst f)
    (taken : s.go tid = some t) :
    ∃ queue', Kept shape t queue' := by
  obtain ⟨lock, circular, releasing, named, some_member⟩ := kept.held at_pc (by decide)
  have rest : Rest s.table (queue f.object) (s.table f.last) f.last :=
    named ▸ Linked.rest circular (named ▸ some_member)
  simp only [State.go, at_pc] at taken
  cases taken
  refine ⟨queue, ?_⟩
  split_ifs with more
  · exact kept.read at_pc (by decide) ⟨rfl, rfl⟩ (by decide) (fun now => nomatch now) rest ⟨releasing, more⟩
  · exact kept.read at_pc (by decide) ⟨rfl, rfl⟩ (by decide) (fun now => nomatch now) rest
      ⟨releasing, not_not.mp more⟩

/-- A release resumes the first one of the queue. -/
theorem Kept.resume (kept : Kept shape s queue) (at_pc : s.pc tid = .at .resume f) (taken : s.go tid = some t) :
    ∃ queue', Kept shape t queue' := by
  obtain ⟨lock, circular, releasing, more⟩ := kept.held at_pc (by decide)
  obtain ⟨others, split, fresh, rest⟩ := Rest.tail circular more
  rw [split] at releasing
  obtain ⟨resumes, after⟩ := kept.resumed .advance at_pc (by decide) split fresh rfl rest releasing.resumed
  simp only [State.go, at_pc, resumes] at taken
  cases taken
  exact ⟨_, after⟩

theorem Kept.advance (kept : Kept shape s queue) (at_pc : s.pc tid = .at .advance f) (taken : s.go tid = some t) :
    ∃ queue', Kept shape t queue' := by
  obtain ⟨lock, rest, releasing⟩ := kept.held at_pc (by decide)
  simp only [State.go, at_pc] at taken
  cases taken
  refine ⟨queue, ?_⟩
  split_ifs with more
  · exact kept.read at_pc (by decide) ⟨rfl, rfl⟩ (by decide) (fun now => nomatch now) rest ⟨releasing, more⟩
  · exact kept.read at_pc (by decide) ⟨rfl, rfl⟩ (by decide) (fun now => nomatch now) rest
      ⟨releasing, not_not.mp more⟩

/-- The last one of a queue is alone in it. -/
theorem Kept.resumeLast (kept : Kept shape s queue) (at_pc : s.pc tid = .at .resumeLast f)
    (taken : s.go tid = some t) :
    ∃ queue', Kept shape t queue' := by
  obtain ⟨lock, circular, releasing, same⟩ := kept.held at_pc (by decide)
  have split : queue f.object = [f.first] := by
    have rest : Rest s.table (queue f.object) f.first f.last := circular
    rw [← same] at rest
    exact rest.single
  rw [split] at releasing
  obtain ⟨resumes, after⟩ := kept.resumed .clearQueue at_pc (by decide) split List.not_mem_nil rfl rfl
    releasing.resumed
  simp only [State.go, at_pc, resumes] at taken
  cases taken
  exact ⟨_, after⟩

theorem Kept.clearQueue (kept : Kept shape s queue) (at_pc : s.pc tid = .at .clearQueue f)
    (taken : s.go tid = some t) :
    ∃ queue', Kept shape t queue' := by
  obtain ⟨lock, empty, releasing⟩ := kept.held at_pc (by decide)
  have none_left : queue f.object = [] := empty
  simp only [State.go, at_pc] at taken
  cases taken
  refine ⟨queue, kept.assigned at_pc (by decide) (by decide) rfl rfl (fun now => nomatch now) ?_
    ⟨releasing, none_left⟩⟩
  rw [none_left]
  exact ⟨Ring.nil, rfl⟩

theorem Kept.resetCount (kept : Kept shape s queue) (at_pc : s.pc tid = .at .resetCount f)
    (taken : s.go tid = some t) :
    ∃ queue', Kept shape t queue' := by
  obtain ⟨lock, circular, releasing, none_left⟩ := kept.held at_pc (by decide)
  simp only [State.go, at_pc] at taken
  cases taken
  exact ⟨queue, kept.assigned at_pc (by decide) (by decide) rfl rfl (fun now => nomatch now) circular
    fun _ => ⟨releasing, none_left, kept.initialCount f.object⟩⟩

/-- A queue of one is cleared, else the second one is looked up. -/
theorem Kept.giveFirst (kept : Kept shape s queue) (at_pc : s.pc tid = .at .giveFirst f)
    (taken : s.go tid = some t) :
    ∃ queue', Kept shape t queue' := by
  obtain ⟨lock, circular, sem, named, some_member⟩ := kept.held at_pc (by decide)
  have rest : Rest s.table (queue f.object) (s.table f.last) f.last :=
    named ▸ Linked.rest circular (named ▸ some_member)
  simp only [State.go, at_pc] at taken
  cases taken
  refine ⟨queue, ?_⟩
  split_ifs with same
  · rw [same] at rest
    exact kept.read at_pc (by decide) ⟨rfl, rfl⟩ (by decide) (fun now => nomatch now) circular
      ⟨sem, named, rest.single.trans (congrArg (fun first => [first]) same.symm)⟩
  · obtain ⟨others, split, _, tail⟩ := rest.tail same
    refine kept.read at_pc (by decide) ⟨rfl, rfl⟩ (by decide) (fun now => nomatch now) circular
      ⟨sem, named, others, split, ?_⟩
    rintro rfl
    exact nomatch tail.2.1

theorem Kept.giveClear (kept : Kept shape s queue) (at_pc : s.pc tid = .at .giveClear f)
    (taken : s.go tid = some t) :
    ∃ queue', Kept shape t queue' := by
  obtain ⟨lock, circular, sem, named, split⟩ := kept.held at_pc (by decide)
  simp only [State.go, at_pc] at taken
  cases taken
  exact ⟨queue, kept.assigned at_pc (by decide) (by decide) rfl rfl (fun now => nomatch now)
    ⟨[], split, List.not_mem_nil, Ring.nil, rfl⟩ sem⟩

theorem Kept.giveResume (kept : Kept shape s queue) (at_pc : s.pc tid = .at .giveResume f)
    (taken : s.go tid = some t) :
    ∃ queue', Kept shape t queue' := by
  obtain ⟨lock, ⟨rest, split, fresh, linked⟩, sem⟩ := kept.held at_pc (by decide)
  obtain ⟨resumes, after⟩ := kept.resumed .setCount at_pc (by decide) split fresh rfl linked sem
  simp only [State.go, at_pc, resumes] at taken
  cases taken
  exact ⟨_, after⟩

theorem Kept.setCount (kept : Kept shape s queue) (at_pc : s.pc tid = .at .setCount f) (taken : s.go tid = some t) :
    ∃ queue', Kept shape t queue' := by
  obtain ⟨lock, circular, sem⟩ := kept.held at_pc (by decide)
  have other : shape.barrier f.object = false := sem
  simp only [State.go, at_pc] at taken
  cases taken
  exact ⟨queue, kept.assigned at_pc (by decide) (by decide) rfl rfl (fun now => nomatch now) circular
    fun barrier => by rw [other] at barrier; cases barrier⟩

/-- A single step of a call keeps the queues, provided that no loop is about
to read the entry that a tasklet stores as its own. -/
theorem Kept.go (kept : Kept shape s queue) (valid : tid ≠ EMPTY_WAIT_QUEUE)
    (declared : ∀ i, shape.barrier i = true → shape.initialCount i ≠ 0) (taken : s.go tid = some t)
    (unread : ∀ f, s.pc tid = .at .storeSelf f → s.Unread tid) : ∃ queue', Kept shape t queue' := by
  cases at_pc : s.pc tid with
  | running | stopped _ => simp [State.go, at_pc] at taken
  | «at» stage f =>
    cases stage with
    | acquire =>
      simp only [State.go, at_pc] at taken
      split at taken
      · rename_i free
        cases taken
        exact ⟨queue, kept.acquire valid at_pc (Option.isNone_iff_eq_none.mp free)⟩
      · cases taken
    | loadCount => exact kept.loadCount at_pc taken
    | loadLast => exact kept.loadLast at_pc taken
    | loadFirst => exact kept.loadFirst at_pc taken
    | storeSelf =>
      have stored := kept.storeSelf at_pc (unread f at_pc)
      simp only [State.go, at_pc] at taken
      split_ifs at taken stored <;> cases taken <;> exact ⟨queue, stored⟩
    | storeLast =>
      simp only [State.go, at_pc] at taken
      cases taken
      exact ⟨queue, kept.storeLast at_pc⟩
    | storeQueue => exact kept.storeQueue at_pc taken
    | storeCount =>
      simp only [State.go, at_pc] at taken
      cases taken
      exact ⟨queue, kept.storeCount at_pc⟩
    | stop =>
      simp only [State.go, at_pc] at taken
      cases taken
      exact ⟨_, kept.stop valid at_pc⟩
    | releaseFirst => exact kept.releaseFirst at_pc taken
    | resume => exact kept.resume at_pc taken
    | advance => exact kept.advance at_pc taken
    | resumeLast => exact kept.resumeLast at_pc taken
    | clearQueue => exact kept.clearQueue at_pc taken
    | resetCount => exact kept.resetCount at_pc taken
    | giveFirst => exact kept.giveFirst at_pc taken
    | giveClear => exact kept.giveClear at_pc taken
    | giveNext =>
      obtain ⟨lock, circular, sem, named, others⟩ := kept.held at_pc (by decide)
      simp only [State.go, at_pc] at taken
      cases taken
      exact ⟨queue, kept.read at_pc (by decide) ⟨rfl, rfl⟩ (by decide) (fun now => nomatch now) circular
        ⟨sem, named, others, rfl⟩⟩
    | giveStore =>
      simp only [State.go, at_pc] at taken
      cases taken
      exact ⟨queue, kept.giveStore at_pc⟩
    | giveResume => exact kept.giveResume at_pc taken
    | setCount => exact kept.setCount at_pc taken
    | release =>
      have released := kept.release valid at_pc declared t.log
      simp only [State.go, at_pc] at taken
      cases taken
      refine ⟨queue, ?_⟩
      split_ifs at released ⊢ with barrier
      · exact released rfl
      · exact released rfl

theorem Kept.step {a : BitVec 8 × Action ι} (kept : Kept shape s queue)
    (declared : ∀ i, shape.barrier i = true → shape.initialCount i ≠ 0) (step : Step shape s a t)
    (good : ReadBefore ⟨s, a, t⟩) : ∃ queue', Kept shape t queue' := by
  obtain ⟨tid, action⟩ := a
  simp only [Step, State.act] at step
  split at step
  · cases step
  · rename_i valid
    cases action with
    | call routine i =>
      simp only at step
      split at step
      · rename_i running
        split at step
        · rename_i fits
          cases step
          exact ⟨queue, kept.call valid running (by rw [← fits, decide_eq_true_iff])⟩
        · cases step
      · cases step
    | go => exact kept.go valid declared step fun f at_pc => good f at_pc

theorem Kept.initial (declared : ∀ i, shape.barrier i = true → shape.initialCount i ≠ 0) :
    Kept shape (.initial shape) fun _ => [] where
  stopped tid i := by simp [State.initial]
  tasklets := rfl
  holder tid stage f at_pc := nomatch at_pc
  fits tid stage f at_pc := nomatch at_pc
  initialCount i := rfl
  phase i := by
    refine ⟨⟨Ring.nil, rfl⟩, fun barrier => ⟨rfl, ?_, rfl, rfl⟩⟩
    rw [Nat.pos_iff_ne_zero]
    exact fun zero => declared i barrier (BitVec.eq_of_toNat_eq zero)
  fresh tid f at_pc := nomatch at_pc
  order i := rfl

/-- A barrier either waits or resumes. -/
theorem Kept.accounts (kept : Kept shape s queue) (barrier : shape.barrier i = true) :
    (times s.log .opened i = times s.log .closed i ∧
      times s.log .resumed i = ((shape.initialCount i).toNat - 1) * times s.log .closed i ∧
      (queue i).length ≤ (shape.initialCount i).toNat - 1) ∨ Releasing shape i (queue i).length s.log := by
  have waits {waiting : Nat} (more : (queue i).length ≤ waiting)
      (accounts : Waiting shape i (s.object i) waiting s.log) :
      times s.log .opened i = times s.log .closed i ∧
        times s.log .resumed i = ((shape.initialCount i).toNat - 1) * times s.log .closed i ∧
        (queue i).length ≤ (shape.initialCount i).toNat - 1 := by
    obtain ⟨count, positive, opened, resumed⟩ := accounts barrier
    exact ⟨opened, resumed, by omega⟩
  have phase := kept.phase i
  unfold Phase at phase
  split at phase
  · exact .inl (waits le_rfl phase.2)
  · obtain ⟨stage, f, _, _, _, locals⟩ := phase
    cases stage with
    | acquire => exact locals.elim
    | loadCount => exact .inl (waits le_rfl locals)
    | loadLast | storeQueue | storeCount => exact .inl (waits le_rfl locals.1)
    | loadFirst | storeSelf | storeLast => exact .inl (waits le_rfl locals.1.1)
    | stop => exact .inl (waits (Nat.le_succ _) locals)
    | releaseFirst | resume | resumeLast | resetCount => exact .inr locals.1
    | advance | clearQueue => exact .inr locals
    | release => exact .inr (locals barrier).1
    | giveResume | setCount => exact absurd (barrier.symm.trans locals) Bool.noConfusion
    | giveFirst | giveClear | giveNext | giveStore => exact absurd (barrier.symm.trans locals.1) Bool.noConfusion

omit [DecidableEq ι] in
theorem CircularAt.nodup {table : BitVec 8 → BitVec 8} {head : BitVec 8} {members : List (BitVec 8)}
    (circular : CircularAt table head members tid f stage) : members.Nodup := by
  cases stage with
  | storeQueue => exact (List.nodup_append.mp circular.1.nodup).1
  | storeCount | stop => exact (List.nodup_append.mp (And.left circular).nodup).1
  | resume | resumeLast | advance => exact And.left circular
  | clearQueue =>
    obtain rfl : members = [] := circular
    exact List.nodup_nil
  | giveResume =>
    obtain ⟨rest, rfl, fresh, linked⟩ := circular
    exact List.nodup_cons.mpr ⟨fresh, linked.1.nodup⟩
  | _ => exact (And.left circular).nodup

/-- What the code keeps makes the barriers work. -/
theorem Kept.works (kept : Kept shape s queue) : Works shape s := by
  have circular (i : ι) : Circular s i (queue i) ∧ (queue i).Nodup := by
    have phase := kept.phase i
    unfold Phase at phase
    unfold Circular
    cases lock : (s.object i).lock with
    | none =>
      simp only [lock] at phase ⊢
      exact ⟨phase.1, phase.1.1.nodup⟩
    | some holder =>
      simp only [lock] at phase ⊢
      obtain ⟨stage, f, at_pc, object, circular, _⟩ := phase
      exact ⟨⟨stage, f, at_pc, object, circular⟩, circular.nodup⟩
  -- at a resume of the loop its target is the first one left of the queue
  have target (tid : BitVec 8) (f : Frame ι) (at_pc : s.pc tid = .at .resume f ∨ s.pc tid = .at .resumeLast f) :
      Rest s.table (queue f.object) f.first f.last ∧ Releasing shape f.object (queue f.object).length s.log := by
    rcases at_pc with at_pc | at_pc
    · obtain ⟨_, rest, releasing, _⟩ := kept.held at_pc (by decide)
      exact ⟨rest, releasing⟩
    · obtain ⟨_, rest, releasing, _⟩ := kept.held at_pc (by decide)
      exact ⟨rest, releasing⟩
  have stopped (i : ι) : times s.log .stopped i = times s.log .resumed i + (queue i).length := by
    rw [times, kept.order, List.length_append, times]
  refine ⟨⟨queue, fun i => (circular i).1, fun i => (circular i).2, fun tid i => (kept.stopped tid i).symm⟩,
    fun tid f at_pc => ?_, fun i => ⟨queue i, (kept.order i).symm⟩, fun i barrier => ?_, fun i barrier => ?_,
    fun tid f at_pc => ?_, fun tid f at_pc routine => ?_⟩
  · obtain ⟨⟨_, head, _⟩, _⟩ := target tid f at_pc
    exact (kept.stopped _ _).mp (List.mem_of_head? head)
  · rcases kept.accounts barrier with ⟨opened, _⟩ | ⟨_, opened, _⟩ <;> omega
  · have all := stopped i
    rcases kept.accounts barrier with ⟨opened, resumed, fits⟩ | ⟨_, opened, resumed, fits⟩
    · rw [opened, Nat.mul_add]
      omega
    · rw [opened] at resumed ⊢
      rw [Nat.mul_add] at resumed ⊢
      omega
  · obtain ⟨⟨_, head, _⟩, _, _, resumed, _⟩ := target tid f at_pc
    have some_left : 0 < (queue f.object).length := List.length_pos_of_mem (List.mem_of_head? head)
    omega
  · obtain ⟨lock, linked, locals⟩ := kept.held at_pc (by decide)
    obtain ⟨⟨_, _, resumed, _⟩, empty, count⟩ := locals ((kept.fits tid .release f at_pc).mp routine)
    rw [empty, List.length_nil, Nat.add_zero] at resumed
    have head : (s.object f.object).waitQueue = EMPTY_WAIT_QUEUE := by
      have named := And.right linked
      rwa [empty] at named
    have declared := kept.initialCount f.object
    refine ⟨resumed, ?_⟩
    cases object : s.object f.object with
    | mk waitQueue count' initialCount holder =>
      rw [object] at head count declared lock
      simp only at head count declared lock
      rw [head, count, declared, lock]
      rfl

/-- In a run in which a tasklet that stores its entry of the table is never
one whose entry a releasing loop is about to read, the barriers work in every state. -/
theorem barriers_work {history : List (Transition (State ι) (BitVec 8 × Action ι))}
    (declared : ∀ i, shape.barrier i = true → shape.initialCount i ≠ 0)
    (run : Run (Step shape) (.initial shape) history s) (good : ∀ τ ∈ history, ReadBefore τ) :
    Works shape s ∧ ∀ τ ∈ history, Works shape τ.after := by
  obtain ⟨⟨queue, kept⟩, along⟩ :=
    run.guarded (I := fun _ => True) (P := fun s => ∃ queue, Kept shape s queue) trivial
    (fun _ _ _ _ _ => trivial) ⟨_, Kept.initial declared⟩
    (fun s a t _ ⟨queue, kept⟩ step now => kept.step declared step now) good
  exact ⟨kept.works, fun τ member => let ⟨_, after⟩ := along τ member; after.works⟩

end Runs

end Barriers

section Example
variable {ι : Type} [DecidableEq ι] {shape : Shape ι} {s t : State ι} {a : BitVec 8 × Action ι}
  {history : List (Transition (State ι) (BitVec 8 × Action ι))}

/-- The tasklet is about to store its entry of the table. -/
def Pc.storing : Pc ι → Bool
  | .at .storeSelf _ => true
  | _ => false

theorem readBefore_next (run : Run (Step shape) (.initial shape) history s ∧ ∀ τ ∈ history, ReadBefore τ)
    (taken : s.act shape a = some t) (other : (s.pc a.1).storing = false) :
    Run (Step shape) (.initial shape) (⟨s, a, t⟩ :: history) t ∧ ∀ τ ∈ ⟨s, a, t⟩ :: history, ReadBefore τ := by
  refine ⟨run.1.next taken, List.forall_mem_cons.mpr ⟨fun f at_pc => ?_, run.2⟩⟩
  have at_pc : s.pc a.1 = .at .storeSelf f := at_pc
  rw [at_pc] at other
  cases other

theorem readBefore_store (run : Run (Step shape) (.initial shape) history s ∧ ∀ τ ∈ history, ReadBefore τ)
    (taken : s.act shape a = some t) (unread : s.Unread a.1) :
    Run (Step shape) (.initial shape) (⟨s, a, t⟩ :: history) t ∧ ∀ τ ∈ ⟨s, a, t⟩ :: history, ReadBefore τ :=
  ⟨run.1.next taken, List.forall_mem_cons.mpr ⟨fun _ _ => unread, run.2⟩⟩

/-- A barrier for two. -/
def forTwo : Shape Unit := ⟨fun _ => true, fun _ => 2⟩

/-- Two tasklets meet at a barrier. -/
theorem barriers_work_two : ∃ history s, Run (Step forTwo) (.initial forTwo) history s ∧
    (Works forTwo s ∧ ∀ τ ∈ history, Works forTwo τ.after) ∧ s.object () = forTwo.object () ∧
      logged s.log .resumed () = [0] := by
  have run : Run (Step forTwo) (.initial forTwo) [] (.initial forTwo) ∧
      ∀ τ ∈ ([] : List (Transition (State Unit) (BitVec 8 × Action Unit))), ReadBefore τ := ⟨.start, by simp⟩
  have run := readBefore_next run (a := ((0 : BitVec 8), Action.call .barrierWait ())) rfl rfl
  have run := readBefore_next run (a := ((0 : BitVec 8), Action.go)) rfl rfl
  have run := readBefore_next run (a := ((0 : BitVec 8), Action.go)) rfl rfl
  have run := readBefore_next run (a := ((0 : BitVec 8), Action.go)) rfl rfl
  have run := readBefore_store run (a := ((0 : BitVec 8), Action.go)) rfl (by
    intro other g reads
    by_cases same : other = 0
    · subst same
      exact nomatch (reads : Pc.at _ _ = _)
    · have idle (pc : BitVec 8 → Pc Unit) (p : Pc Unit) : Function.update pc 0 p other = pc other :=
        Function.update_of_ne same p pc
      simp only [State.setPc, State.setObject, State.initial, idle] at reads
      cases reads)
  have run := readBefore_next run (a := ((0 : BitVec 8), Action.go)) rfl rfl
  have run := readBefore_next run (a := ((0 : BitVec 8), Action.go)) rfl rfl
  have run := readBefore_next run (a := ((0 : BitVec 8), Action.go)) rfl rfl
  have run := readBefore_next run (a := ((1 : BitVec 8), Action.call .barrierWait ())) rfl rfl
  have run := readBefore_next run (a := ((1 : BitVec 8), Action.go)) rfl rfl
  have run := readBefore_next run (a := ((1 : BitVec 8), Action.go)) rfl rfl
  have run := readBefore_next run (a := ((1 : BitVec 8), Action.go)) rfl rfl
  have run := readBefore_next run (a := ((1 : BitVec 8), Action.go)) rfl rfl
  have run := readBefore_next run (a := ((1 : BitVec 8), Action.go)) rfl rfl
  have run := readBefore_next run (a := ((1 : BitVec 8), Action.go)) rfl rfl
  have run := readBefore_next run (a := ((1 : BitVec 8), Action.go)) rfl rfl
  have run := readBefore_next run (a := ((1 : BitVec 8), Action.go)) rfl rfl
  exact ⟨_, _, run.1, barriers_work (fun _ _ => show (2 : BitVec 8) ≠ 0 by decide) run.1 run.2, rfl, rfl⟩

/-- A barrier for three and a semaphore without units. -/
def threeAndSem : Shape Bool := ⟨id, fun i => if i then 3 else 0⟩

/-- What the tasklets 0, 1 and 2 do: two wait at the barrier, the last one
resumes 0, and 0 stops at the semaphore before the loop has read its entry. -/
def resumedTakes : List (BitVec 8 × Action Bool) :=
  (0, .call .barrierWait true) :: List.replicate 7 (0, .go) ++
    (1, .call .barrierWait true) :: List.replicate 9 (1, .go) ++
    (2, .call .barrierWait true) :: List.replicate 5 (2, .go) ++
    (0, .call .semTake false) :: List.replicate 7 (0, .go) ++ [(2, .go)]

/-- The loop goes on with 0, that is stopped at the semaphore. -/
theorem resumedTakes_not_works :
    ¬ ∀ (shape : Shape Bool) (history : List (Transition (State Bool) (BitVec 8 × Action Bool))) (s : State Bool),
      (∀ i, shape.barrier i = true → shape.initialCount i ≠ 0) →
      Run (Step shape) (.initial shape) history s → Works shape s := by
  intro always
  have executed : ∃ s, execute (State.act threeAndSem) resumedTakes (.initial threeAndSem) = some s ∧
      s.pc 2 = .at .resume ⟨.barrierWait, true, 1, 1, 0, 0⟩ ∧ s.pc 0 = .stopped false := ⟨_, rfl, rfl, rfl⟩
  obtain ⟨s, executed, at_pc, stopped⟩ := executed
  obtain ⟨history, run⟩ := execute_run executed
  have declared (i : Bool) (barrier : threeAndSem.barrier i = true) : threeAndSem.initialCount i ≠ 0 := by
    obtain rfl : i = true := barrier
    decide
  have waits := (always threeAndSem history s declared run).waiting 2 _ (.inl at_pc)
  exact nomatch stopped.symm.trans waits

end Example

end Upmem.Barrier
