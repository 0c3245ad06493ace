import Mathlib.Algebra.Order.BigOperators.Group.List
import Mathlib.Algebra.Order.Monoid.Canonical.Defs
import Mathlib.Algebra.Order.Group.Nat
import Mathlib.Data.List.Nodup
import Mathlib.Data.Nat.Find

namespace LinearProbing
universe u
variable {α : Type u} {home : α → Nat} {places : List (α × Nat)} {n : Nat}

/-- Items in the slots where probing upwards from their homes has put them: no
slot holds two items, and every slot that an item passed is taken. -/
structure Placed (home : α → Nat) (places : List (α × Nat)) : Prop where
  distinct : (places.map Prod.snd).Nodup
  home_le : ∀ place ∈ places, home place.1 ≤ place.2
  passed : ∀ place ∈ places, ∀ j, home place.1 ≤ j → j < place.2 → j ∈ places.map Prod.snd

theorem placed_nil : Placed home [] := ⟨List.nodup_nil, by simp, by simp⟩

/-- The first slot that is not taken, from a slot on. -/
theorem exists_free (taken : List Nat) (start : Nat) :
    ∃ slot, start ≤ slot ∧ slot ∉ taken ∧ ∀ j, start ≤ j → j < slot → j ∈ taken := by
  have some : ∃ slot, start ≤ slot ∧ slot ∉ taken := by
    refine ⟨start + taken.sum + 1, by omega, fun member => ?_⟩
    have le := List.le_sum_of_mem member
    omega
  refine ⟨Nat.find some, (Nat.find_spec some).1, (Nat.find_spec some).2, fun j above below => ?_⟩
  by_contra free
  exact Nat.find_min some below ⟨above, free⟩

/-- Putting an item into the first free slot from its home on. -/
theorem Placed.concat (placed : Placed home places) {item : α} {slot : Nat} (above : home item ≤ slot)
    (free : slot ∉ places.map Prod.snd) (passed : ∀ j, home item ≤ j → j < slot → j ∈ places.map Prod.snd) :
    Placed home (places ++ [(item, slot)]) := by
  refine ⟨?_, ?_, ?_⟩
  · rw [List.map_append, List.map_singleton]
    refine List.nodup_append.mpr ⟨placed.distinct, List.nodup_singleton _, fun _ old _ new same => ?_⟩
    obtain rfl := List.mem_singleton.mp new
    exact free (same ▸ old)
  · intro place member
    rcases List.mem_append.mp member with old | new
    · exact placed.home_le place old
    · exact List.mem_singleton.mp new ▸ above
  · intro place member j from_home below
    rw [List.map_append]
    refine List.mem_append_left _ ?_
    rcases List.mem_append.mp member with old | new
    · exact placed.passed place old j from_home below
    · obtain rfl := List.mem_singleton.mp new
      exact passed j from_home below

/-- The items that are at home behind a slot take slots behind it. -/
theorem Placed.count_le (placed : Placed home places) (within : ∀ place ∈ places, place.2 < n) (i : Nat) :
    places.countP (fun place => i ≤ home place.1) ≤ n - i := by
  have slots : ((places.filter fun place => i ≤ home place.1).map Prod.snd).Subperm (List.range' i (n - i)) := by
    refine List.subperm_of_subset (placed.distinct.sublist (List.filter_sublist.map _)) fun slot member => ?_
    obtain ⟨place, inside, rfl⟩ := List.mem_map.mp member
    obtain ⟨there, behind⟩ := List.mem_filter.mp inside
    have above := placed.home_le place there
    have below := within place there
    have from_i : i ≤ home place.1 := of_decide_eq_true behind
    exact List.mem_range'_1.mpr ⟨by omega, by omega⟩
  have lengths := slots.length_le
  rwa [List.length_map, List.length_range', ← List.countP_eq_length_filter] at lengths

/-- A block of taken slots is full of items that are at home in it or behind it, if the slot before it is free. -/
theorem Placed.block_le_count (placed : Placed home places) {i last : Nat}
    (taken : ∀ j, i ≤ j → j ≤ last → j ∈ places.map Prod.snd) (before : ∀ j, j + 1 = i → j ∉ places.map Prod.snd) :
    last + 1 - i ≤ places.countP fun place => i ≤ home place.1 := by
  have slots :
      (List.range' i (last + 1 - i)).Subperm ((places.filter fun place => i ≤ home place.1).map Prod.snd) := by
    refine List.subperm_of_subset List.nodup_range' fun slot member => ?_
    obtain ⟨above, below⟩ := List.mem_range'_1.mp member
    obtain ⟨place, there, rfl⟩ := List.mem_map.mp (taken slot above (by omega))
    refine List.mem_map.mpr ⟨place, List.mem_filter.mpr ⟨there, decide_eq_true ?_⟩, rfl⟩
    by_contra lower
    exact before (i - 1) (by omega) (placed.passed place there (i - 1) (by omega) (by omega))
  have lengths := slots.length_le
  rwa [List.length_map, List.length_range', ← List.countP_eq_length_filter] at lengths

/-- All items find slots below `n` if and only if behind every slot there are
at most as many items at home as there are slots. -/
theorem Placed.within_iff (placed : Placed home places) (n : Nat) :
    (∀ place ∈ places, place.2 < n) ↔ ∀ i ≤ n, places.countP (fun place => i ≤ home place.1) ≤ n - i := by
  refine ⟨fun within i _ => placed.count_le within i, fun few place there => ?_⟩
  by_contra beyond
  have some : ∃ i, ∀ j, i ≤ j → j ≤ place.2 → j ∈ places.map Prod.snd :=
    ⟨place.2, fun j above below => le_antisymm below above ▸ List.mem_map_of_mem there⟩
  have before : ∀ j, j + 1 = Nat.find some → j ∉ places.map Prod.snd := by
    intro j next taken
    refine Nat.find_min some (Nat.lt_of_succ_le next.le) fun k above below => ?_
    rcases Nat.eq_or_lt_of_le above with rfl | later
    · exact taken
    · exact Nat.find_spec some k (next ▸ later) below
  have block := placed.block_le_count (Nat.find_spec some) before
  have bound : Nat.find some ≤ place.2 := Nat.find_min' some fun j above below =>
    le_antisymm below above ▸ List.mem_map_of_mem there
  by_cases inside : Nat.find some ≤ n
  · have most := few _ inside
    omega
  · have most := few n le_rfl
    have fewer :
        places.countP (fun place => Nat.find some ≤ home place.1) ≤ places.countP (fun place => n ≤ home place.1) :=
      List.countP_mono_left fun place _ behind => decide_eq_true (by have := of_decide_eq_true behind; omega)
    omega

end LinearProbing
