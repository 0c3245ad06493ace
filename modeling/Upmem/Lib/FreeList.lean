import Mathlib.Data.List.Perm.Basic

namespace FreeList

/-- A list of blocks that goes through their first words and ends with a null pointer. -/
def Threaded (load : Nat → Nat) : (head : Nat) → List Nat → Prop
  | head, [] => head = 0
  | head, block :: free => head = block ∧ block ≠ 0 ∧ Threaded load (load block) free

/-- The free list and the blocks that are owned are together all blocks. -/
def Shares (load : Nat → Nat) (head : Nat) (blocks owned : List Nat) : Prop :=
  ∃ free, Threaded load head free ∧ (owned ++ free).Perm blocks

variable {load load' : Nat → Nat} {head : Nat} {free blocks owned : List Nat}

theorem Threaded.congr (threaded : Threaded load head free) (same : ∀ block ∈ free, load' block = load block) :
    Threaded load' head free := by
  induction free generalizing head with
  | nil => exact threaded
  | cons block free ih =>
    rw [List.forall_mem_cons] at same
    obtain ⟨first, valid, rest⟩ := threaded
    exact ⟨first, valid, same.1 ▸ ih rest same.2⟩

/-- The list is empty where its head is null. -/
theorem Threaded.null_iff (threaded : Threaded load head free) : head = 0 ↔ free = [] := by
  cases free with
  | nil => exact iff_of_true threaded rfl
  | cons block free =>
    obtain ⟨rfl, valid, _⟩ := threaded
    exact iff_of_false valid (List.cons_ne_nil _ _)

/-- No block is free if and only if all of them are owned. -/
theorem Shares.null_iff (shares : Shares load head blocks owned) : head = 0 ↔ owned.length = blocks.length := by
  obtain ⟨free, threaded, whole⟩ := shares
  have lengths := whole.length_eq
  rw [List.length_append] at lengths
  rw [threaded.null_iff, ← List.length_eq_zero_iff]
  omega

theorem Shares.owned_mem (shares : Shares load head blocks owned) {block : Nat} (member : block ∈ owned) :
    block ∈ blocks := by
  obtain ⟨free, _, whole⟩ := shares
  exact whole.mem_iff.mp (List.mem_append_left _ member)

theorem Shares.owned_nodup (shares : Shares load head blocks owned) (distinct : blocks.Nodup) : owned.Nodup := by
  obtain ⟨free, _, whole⟩ := shares
  exact (List.nodup_append.mp (whole.nodup_iff.mpr distinct)).1

/-- Words change that are not the first ones of free blocks. -/
theorem Shares.congr (shares : Shares load head blocks owned) (distinct : blocks.Nodup)
    (same : ∀ block ∈ blocks, block ∉ owned → load' block = load block) : Shares load' head blocks owned := by
  obtain ⟨free, threaded, whole⟩ := shares
  have apart := (List.nodup_append.mp (whole.nodup_iff.mpr distinct)).2.2
  refine ⟨free, threaded.congr fun block member => ?_, whole⟩
  exact same block (whole.mem_iff.mp (List.mem_append_right _ member)) fun also => apart block also block member rfl

/-- The first free block is taken. -/
theorem Shares.take (shares : Shares load head blocks owned) (some : head ≠ 0) :
    head ∈ blocks ∧ Shares load (load head) blocks (head :: owned) := by
  obtain ⟨free, threaded, whole⟩ := shares
  cases free with
  | nil => exact absurd threaded some
  | cons block free =>
    obtain ⟨rfl, _, rest⟩ := threaded
    exact ⟨whole.mem_iff.mp (List.mem_append_right _ List.mem_cons_self), free, rest,
      List.perm_middle.symm.trans whole⟩

/-- A block that is owned becomes the first free one. -/
theorem Shares.give (shares : Shares load head blocks owned) (distinct : blocks.Nodup) {block : Nat}
    (member : block ∈ owned) (valid : block ≠ 0) (link : load' block = head)
    (same : ∀ other ∈ blocks, other ≠ block → load' other = load other) :
    Shares load' block blocks (owned.erase block) := by
  obtain ⟨free, threaded, whole⟩ := shares
  have apart := (List.nodup_append.mp (whole.nodup_iff.mpr distinct)).2.2
  refine ⟨block :: free, ⟨rfl, valid, ?_⟩, ?_⟩
  · rw [link]
    refine threaded.congr fun other free_ => same other (whole.mem_iff.mp (List.mem_append_right _ free_)) ?_
    rintro rfl
    exact apart other member other free_ rfl
  · have back : (block :: owned.erase block ++ free).Perm (owned ++ free) :=
      (List.perm_cons_erase member).symm.append_right free
    exact (List.perm_middle.trans back).trans whole

end FreeList
