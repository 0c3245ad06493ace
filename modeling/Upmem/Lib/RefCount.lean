import Mathlib.Algebra.Order.Group.Int
import Mathlib.Data.List.Count
import Mathlib.Data.List.Perm.Basic
import Mathlib.Tactic.NormNum

namespace RefCount

/-- Objects that carry a count of the references to them. They are numbered in
the order of their creation; a fault is an access to an object that has been
freed or a count below zero. -/
structure Heap where
  count : Nat → Int
  next : Nat
  freed : List Nat
  fault : Bool

/-- An object that has been created and not yet freed. -/
def Heap.Live (h : Heap) (p : Nat) : Prop := p < h.next ∧ p ∉ h.freed

instance (h : Heap) (p : Nat) : Decidable (h.Live p) := inferInstanceAs (Decidable (_ ∧ _))

def Heap.setCount (p : Nat) (count : Int) (h : Heap) : Heap :=
  if h.Live p then { h with count := fun q => if q = p then count else h.count q } else { h with fault := true }

def Heap.create (h : Heap) : Heap := { h with next := h.next + 1 }

/-- An object is freed whatever its count. -/
def Heap.discard (p : Nat) (h : Heap) : Heap :=
  if h.Live p then { h with freed := p :: h.freed } else { h with fault := true }

/-- A reference is taken. -/
def Heap.retain (p : Nat) (h : Heap) : Heap := h.setCount p (h.count p + 1)

/-- A reference is given back, the last one with its object. -/
def Heap.release (p : Nat) (h : Heap) : Heap :=
  if h.count p - 1 < 0 then { h.setCount p (h.count p - 1) with fault := true }
  else if h.count p - 1 = 0 then (h.setCount p (h.count p - 1)).discard p
  else h.setCount p (h.count p - 1)

/-- The counts are those of a list of references. -/
structure CountedBy (refs : List Nat) (h : Heap) : Prop where
  fault : h.fault = false
  counts : ∀ p, h.Live p → h.count p = refs.count p
  live : ∀ p ∈ refs, h.Live p
  once : h.freed.Nodup
  past : ∀ p ∈ h.freed, p < h.next

/-- References come to another list without a fault: only those to one object
get more, and what loses its last reference is freed. -/
structure Passage (gaining : Nat) (refs : List Nat) (h : Heap) (refs' : List Nat) (h' : Heap) : Prop where
  counted : CountedBy refs' h'
  next : h'.next = h.next
  falls : ∀ p ≠ gaining, refs'.count p ≤ refs.count p
  rises : refs.count gaining ≤ refs'.count gaining
  freed : ∀ p, p ∈ h'.freed ↔ p ∈ h.freed ∨ 0 < refs.count p ∧ refs'.count p = 0

section Lemmas
variable {h h' h'' : Heap} {refs refs' refs'' : List Nat} {p gaining : Nat}

theorem CountedBy.perm (counted : CountedBy refs h) (same : refs.Perm refs') : CountedBy refs' h where
  fault := counted.fault
  counts := fun p alive => by rw [counted.counts p alive, same.count_eq]
  live := fun p member => counted.live p (same.symm.subset member)
  once := counted.once
  past := counted.past

theorem Passage.refl (counted : CountedBy refs h) : Passage gaining refs h refs h where
  counted := counted
  next := rfl
  falls := fun _ _ => le_refl _
  rises := le_refl _
  freed := fun p => by
    have apart : ¬ (0 < refs.count p ∧ refs.count p = 0) := by omega
    exact (or_iff_left apart).symm

theorem Passage.perm (passage : Passage gaining refs h refs' h') (before : refs.Perm refs'') :
    Passage gaining refs'' h refs' h' where
  counted := passage.counted
  next := passage.next
  falls := by simpa only [before.count_eq] using passage.falls
  rises := by simpa only [before.count_eq] using passage.rises
  freed := by simpa only [before.count_eq] using passage.freed

theorem Passage.perm_after (passage : Passage gaining refs h refs' h') (after : refs'.Perm refs'') :
    Passage gaining refs h refs'' h' where
  counted := passage.counted.perm after
  next := passage.next
  falls := by simpa only [after.count_eq] using passage.falls
  rises := by simpa only [after.count_eq] using passage.rises
  freed := by simpa only [after.count_eq] using passage.freed

theorem Passage.trans (first : Passage gaining refs h refs' h') (second : Passage gaining refs' h' refs'' h'') :
    Passage gaining refs h refs'' h'' where
  counted := second.counted
  next := second.next.trans first.next
  falls := fun p other => (second.falls p other).trans (first.falls p other)
  rises := first.rises.trans second.rises
  freed := fun p => by
    rw [second.freed, first.freed, or_assoc]
    refine or_congr_right ?_
    by_cases same : p = gaining
    · subst same
      have up := first.rises
      have further := second.rises
      omega
    · have down := first.falls p same
      have further := second.falls p same
      omega

/-- Giving back a reference. -/
theorem release_passage (counted : CountedBy (p :: refs) h) (other : p ≠ gaining) :
    Passage gaining (p :: refs) h refs (h.release p) := by
  have alive : h.Live p := counted.live p List.mem_cons_self
  have count : h.count p = refs.count p + 1 := by
    have now := counted.counts p alive
    rw [List.count_cons_self] at now
    exact now
  have elsewhere (q : Nat) (differs : q ≠ p) : (p :: refs).count q = refs.count q :=
    List.count_cons_of_ne differs.symm
  have falls : ∀ q ≠ gaining, refs.count q ≤ (p :: refs).count q := fun _ _ => List.count_le_count_cons
  have rises : (p :: refs).count gaining ≤ refs.count gaining := (elsewhere gaining other.symm).le
  have live_after (q : Nat) (member : q ∈ refs) : h.Live q := counted.live q (List.mem_cons_of_mem p member)
  have counts_after (q : Nat) (live : h.Live q) : (if q = p then h.count p - 1 else h.count q) = refs.count q := by
    split
    next same =>
      subst same
      omega
    next differs => rw [counted.counts q live, elsewhere q differs]
  by_cases last : refs.count p = 0
  · have result : h.release p =
        { h with count := fun q => if q = p then h.count p - 1 else h.count q, freed := p :: h.freed } := by
      have zero : h.count p - 1 = 0 := by omega
      have again : Heap.Live { h with count := fun q => if q = p then h.count p - 1 else h.count q } p := alive
      rw [Heap.release, if_neg (by omega), if_pos zero, Heap.setCount, if_pos alive, Heap.discard, if_pos again]
    rw [result]
    refine ⟨⟨counted.fault, ?_, ?_, ?_, ?_⟩, rfl, falls, rises, ?_⟩
    · exact fun q live => counts_after q ⟨live.1, fun gone => live.2 (List.mem_cons_of_mem p gone)⟩
    · intro q member
      refine ⟨(live_after q member).1, fun gone => ?_⟩
      rcases List.mem_cons.mp gone with rfl | gone
      · exact List.count_eq_zero.mp last member
      · exact (live_after q member).2 gone
    · exact List.nodup_cons.mpr ⟨alive.2, counted.once⟩
    · exact List.forall_mem_cons.mpr ⟨alive.1, counted.past⟩
    · intro q
      by_cases same : q = p
      · subst same
        simp [last]
      · rw [List.mem_cons, elsewhere q same]
        have apart : ¬ (0 < refs.count q ∧ refs.count q = 0) := by omega
        rw [or_iff_left apart, or_iff_right same]
  · have result : h.release p = { h with count := fun q => if q = p then h.count p - 1 else h.count q } := by
      rw [Heap.release, if_neg (by omega), if_neg (by omega), Heap.setCount, if_pos alive]
    rw [result]
    refine ⟨⟨counted.fault, counts_after, live_after, counted.once, counted.past⟩, rfl, falls, rises, ?_⟩
    intro q
    by_cases same : q = p
    · subst same
      simp [last]
    · rw [elsewhere q same]
      have apart : ¬ (0 < refs.count q ∧ refs.count q = 0) := by omega
      exact (or_iff_left apart).symm

/-- Taking a reference. -/
theorem retain_passage (counted : CountedBy refs h) (alive : h.Live p) :
    Passage p refs h (p :: refs) (h.retain p) := by
  have result : h.retain p = { h with count := fun q => if q = p then h.count p + 1 else h.count q } := by
    rw [Heap.retain, Heap.setCount, if_pos alive]
  rw [result]
  refine ⟨⟨counted.fault, ?_, ?_, counted.once, counted.past⟩, rfl, ?_, List.count_le_count_cons, ?_⟩
  · intro q live
    dsimp only
    split
    next same =>
      subst same
      rw [counted.counts q alive, List.count_cons_self]
      rfl
    next differs => rw [counted.counts q live, List.count_cons_of_ne (Ne.symm differs)]
  · exact List.forall_mem_cons.mpr ⟨alive, counted.live⟩
  · exact fun q differs => (List.count_cons_of_ne (Ne.symm differs)).le
  · intro q
    have grows : refs.count q ≤ (p :: refs).count q := List.count_le_count_cons
    have apart : ¬ (0 < refs.count q ∧ (p :: refs).count q = 0) := by omega
    exact (or_iff_left apart).symm

/-- Giving back some references in order. -/
theorem releases_passage {given : List Nat} (counted : CountedBy (given ++ refs) h)
    (others : ∀ p ∈ given, p ≠ gaining) :
    Passage gaining (given ++ refs) h refs (given.foldl (fun h p => h.release p) h) := by
  induction given generalizing h with
  | nil => exact .refl counted
  | cons p rest ih =>
    obtain ⟨other, others⟩ := List.forall_mem_cons.mp others
    have first : Passage gaining (p :: (rest ++ refs)) h (rest ++ refs) (h.release p) :=
      release_passage counted other
    exact first.trans (ih first.counted others)

/-- A new object has no references. -/
theorem CountedBy.create (counted : CountedBy refs h) : CountedBy refs (h.create.setCount h.next 0) ∧
    (h.create.setCount h.next 0).Live h.next := by
  have fresh : h.next ∉ h.freed := fun gone => lt_irrefl _ (counted.past _ gone)
  have alive : h.create.Live h.next := ⟨Nat.lt_succ_self _, fresh⟩
  have unnamed : refs.count h.next = 0 := List.count_eq_zero.mpr fun member => lt_irrefl _ (counted.live _ member).1
  rw [Heap.setCount, if_pos alive]
  refine ⟨⟨counted.fault, ?_, ?_, counted.once, ?_⟩, alive⟩
  · intro q live
    dsimp only
    split
    next same =>
      subst same
      rw [unnamed]
      rfl
    next differs =>
      have below : q < h.next := lt_of_le_of_ne (Nat.le_of_lt_succ live.1) differs
      exact counted.counts q ⟨below, live.2⟩
  · exact fun q member => ⟨Nat.lt_succ_of_lt (counted.live q member).1, (counted.live q member).2⟩
  · exact fun q gone => Nat.lt_succ_of_lt (counted.past q gone)

/-- An object without references may be freed. -/
theorem CountedBy.discard (counted : CountedBy refs h) (alive : h.Live p) (unnamed : p ∉ refs) :
    CountedBy refs (h.discard p) ∧ (h.discard p).freed = p :: h.freed ∧ (h.discard p).next = h.next := by
  rw [Heap.discard, if_pos alive]
  refine ⟨⟨counted.fault, ?_, ?_, List.nodup_cons.mpr ⟨alive.2, counted.once⟩, ?_⟩, rfl, rfl⟩
  · exact fun q live => counted.counts q ⟨live.1, fun gone => live.2 (List.mem_cons_of_mem p gone)⟩
  · intro q member
    refine ⟨(counted.live q member).1, fun gone => ?_⟩
    rcases List.mem_cons.mp gone with rfl | gone
    · exact unnamed member
    · exact (counted.live q member).2 gone
  · exact List.forall_mem_cons.mpr ⟨alive.1, counted.past⟩

/-- So may one whose count is set to one and then given back. -/
theorem CountedBy.release_one (counted : CountedBy refs h) (alive : h.Live p) (unnamed : p ∉ refs) :
    CountedBy refs ((h.setCount p 1).release p) ∧ ((h.setCount p 1).release p).freed = p :: h.freed ∧
      ((h.setCount p 1).release p).next = h.next := by
  have zero : refs.count p = 0 := List.count_eq_zero.mpr unnamed
  have held : h.setCount p 1 = h.retain p := by rw [Heap.retain, counted.counts p alive, zero]; rfl
  have taken := retain_passage counted alive
  have nextAfter : (h.retain p).next = h.next := taken.next
  have back : Passage (p + 1) (p :: refs) (h.retain p) refs ((h.retain p).release p) :=
    release_passage taken.counted (Nat.ne_of_lt (Nat.lt_succ_self p))
  rw [held]
  refine ⟨back.counted, ?_, back.next.trans nextAfter⟩
  have count : (h.retain p).count p = 1 := by
    rw [taken.counted.counts p (taken.counted.live p List.mem_cons_self), List.count_cons_self, zero]
    rfl
  have aliveAfter : (h.retain p).Live p := taken.counted.live p List.mem_cons_self
  have freedAfter : (h.retain p).freed = h.freed := by rw [Heap.retain, Heap.setCount, if_pos alive]
  have again : ((h.retain p).setCount p 0).Live p := by
    rw [Heap.setCount, if_pos aliveAfter]
    exact aliveAfter
  rw [Heap.release, count]
  norm_num
  rw [Heap.discard, if_pos again, Heap.setCount, if_pos aliveAfter, freedAfter]

end Lemmas

end RefCount
