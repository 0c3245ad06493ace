import Mathlib.Data.List.Basic
import Mathlib.Data.BitVec

namespace Blit
variable {α ι : Type}

/-- `count` cells of `source`, from `start` on, copied over `target` at `place`. -/
def blit (source : Nat → α) (start : Nat) (target : Nat → α) (place count : Nat) : Nat → α :=
  fun a => if place ≤ a ∧ a < place + count then source (start + (a - place)) else target a

theorem blit_inside (source target : Nat → α) (start place : Nat) {count k : Nat} (inside : k < count) :
    blit source start target place count (place + k) = source (start + k) := by
  rw [blit, if_pos ⟨by omega, by omega⟩, Nat.add_sub_cancel_left]

theorem blit_outside (source : Nat → α) (start : Nat) (target : Nat → α) {place count a : Nat}
    (outside : ¬ (place ≤ a ∧ a < place + count)) : blit source start target place count a = target a :=
  if_neg outside

@[simp] theorem blit_zero (source : Nat → α) (start : Nat) (target : Nat → α) (place : Nat) :
    blit source start target place 0 = target := by
  funext a
  exact blit_outside source start target (by omega)

/-- Cells copied over themselves. -/
theorem blit_self (target : Nat → α) (place count : Nat) : blit target place target place count = target := by
  funext a
  rw [blit]
  split
  · rename_i inside
    rw [Nat.add_sub_cancel' inside.1]
  · rfl

/-- Only the cells that are read matter. -/
theorem blit_congr {source source' target target' : Nat → α} {start start' place count : Nat}
    (same : ∀ k < count, source (start + k) = source' (start' + k))
    (rest : ∀ a, ¬ (place ≤ a ∧ a < place + count) → target a = target' a) :
    blit source start target place count = blit source' start' target' place count := by
  funext a
  by_cases inside : place ≤ a ∧ a < place + count
  · rw [blit, if_pos inside, blit, if_pos inside]
    exact same (a - place) (by omega)
  · rw [blit_outside _ _ _ inside, blit_outside _ _ _ inside]
    exact rest a inside

/-- Two copies of consecutive stretches are one copy. -/
theorem blit_append (source target : Nat → α) (start place first second : Nat) :
    blit source (start + first) (blit source start target place first) (place + first) second =
      blit source start target place (first + second) := by
  funext a
  by_cases later : place + first ≤ a ∧ a < place + first + second
  · rw [blit, if_pos later, blit, if_pos ⟨by omega, by omega⟩]
    congr 1
    omega
  · rw [blit_outside _ _ _ later]
    by_cases earlier : place ≤ a ∧ a < place + first
    · rw [blit, if_pos earlier, blit, if_pos ⟨by omega, by omega⟩]
    · rw [blit_outside _ _ _ earlier, blit_outside _ _ _ (by omega)]

/-- The same when the later stretch is copied first. -/
theorem blit_prepend (source target : Nat → α) (start place first second : Nat) :
    blit source start (blit source (start + first) target (place + first) second) place first =
      blit source start target place (first + second) := by
  funext a
  by_cases earlier : place ≤ a ∧ a < place + first
  · rw [blit, if_pos earlier, blit, if_pos ⟨by omega, by omega⟩]
  · rw [blit_outside _ _ _ earlier]
    by_cases later : place + first ≤ a ∧ a < place + first + second
    · rw [blit, if_pos later, blit, if_pos ⟨by omega, by omega⟩]
      congr 1
      omega
    · rw [blit_outside _ _ _ later, blit_outside _ _ _ (by omega)]

/-- What a copy through a buffer leaves. -/
theorem blit_through (source buffer target : Nat → α) (start middle place count : Nat) :
    blit (blit source start buffer middle count) middle target place count =
      blit source start target place count :=
  blit_congr (fun _ inside => blit_inside source buffer start middle inside) fun _ _ => rfl

/-- A saved stretch written back undoes everything done inside of it. -/
theorem blit_restore {original changed : Nat → α} (saved : Nat → α) {place count : Nat}
    (kept : ∀ a, ¬ (place ≤ a ∧ a < place + count) → changed a = original a) :
    blit (blit original place saved 0 count) 0 changed place count = original := by
  calc blit (blit original place saved 0 count) 0 changed place count = blit original place original place count :=
        blit_congr (fun _ inside => blit_inside original saved place 0 inside) kept
    _ = original := blit_self original place count

section Sequences

/-- A stretch of each of several sources copied over one target, in turn. -/
def blits (source : ι → Nat → α) (start : Nat) (place : ι → Nat) (count : Nat) (is : List ι) (target : Nat → α) :
    Nat → α :=
  is.foldl (fun memory i => blit (source i) start memory (place i) count) target

variable {source : ι → Nat → α} {start count : Nat} {place : ι → Nat} {is : List ι} {a : Nat}

theorem blits_outside (target : Nat → α) (outside : ∀ i ∈ is, ¬ (place i ≤ a ∧ a < place i + count)) :
    blits source start place count is target a = target a := by
  induction is generalizing target with
  | nil => rfl
  | cons i is ih =>
    rw [blits, List.foldl_cons]
    exact (ih _ fun j member => outside j (List.mem_cons_of_mem i member)).trans
      (blit_outside _ _ _ (outside i List.mem_cons_self))

/-- A cell holds what it held or a cell of a source copied over it. -/
theorem blits_cases (source : ι → Nat → α) (start : Nat) (place : ι → Nat) (count : Nat) (is : List ι)
    (target : Nat → α) (a : Nat) :
    blits source start place count is target a = target a ∨
      ∃ i ∈ is, (place i ≤ a ∧ a < place i + count) ∧
        blits source start place count is target a = source i (start + (a - place i)) := by
  induction is generalizing target with
  | nil => exact Or.inl rfl
  | cons i is ih =>
    rcases ih (blit (source i) start target (place i) count) with kept | ⟨j, member, inside, copied⟩
    · by_cases inside : place i ≤ a ∧ a < place i + count
      · exact Or.inr ⟨i, List.mem_cons_self, inside, kept.trans (if_pos inside)⟩
      · exact Or.inl (kept.trans (if_neg inside))
    · exact Or.inr ⟨j, List.mem_cons_of_mem i member, inside, copied⟩

/-- A cell that one source alone is copied over. -/
theorem blits_inside (target : Nat → α) {i : ι} (member : i ∈ is)
    (inside : place i ≤ a ∧ a < place i + count)
    (alone : ∀ j ∈ is, j ≠ i → ¬ (place j ≤ a ∧ a < place j + count)) :
    blits source start place count is target a = source i (start + (a - place i)) := by
  induction is generalizing target with
  | nil => cases member
  | cons j is ih =>
    rw [blits, List.foldl_cons]
    by_cases later : i ∈ is
    · exact ih _ later fun k kept => alone k (List.mem_cons_of_mem j kept)
    · obtain rfl : i = j := (List.mem_cons.mp member).resolve_right later
      refine (blits_outside _ fun k kept => ?_).trans (if_pos inside)
      exact alone k (List.mem_cons_of_mem i kept) fun same => later (same ▸ kept)

end Sequences

section Words

/-- The bytes of an array of words, least significant byte first. -/
def bytesOf (words : Nat → BitVec 32) : Nat → BitVec 8 :=
  fun a => (words (a / 4)).extractLsb' (8 * (a % 4)) 8

/-- The word at an index of a memory of bytes. -/
def word (memory : Nat → BitVec 8) (index : Nat) : BitVec 32 :=
  memory (4 * index + 3) ++ memory (4 * index + 2) ++ memory (4 * index + 1) ++ memory (4 * index)

theorem word_congr {memory memory' : Nat → BitVec 8} {index index' : Nat}
    (same : ∀ k < 4, memory (4 * index + k) = memory' (4 * index' + k)) :
    word memory index = word memory' index' := by
  have first := same 0 (by omega)
  simp only [Nat.add_zero] at first
  rw [word, word, first, same 1 (by omega), same 2 (by omega), same 3 (by omega)]

theorem word_bytesOf (words : Nat → BitVec 32) (index : Nat) : word (bytesOf words) index = words index := by
  have quotient : ∀ k < 4, (4 * index + k) / 4 = index := fun k small => by omega
  have remainder : ∀ k < 4, (4 * index + k) % 4 = k := fun k small => by omega
  have start : bytesOf words (4 * index) = (words index).extractLsb' 0 8 := by
    have := quotient 0 (by omega)
    rw [bytesOf, show 4 * index / 4 = index by omega, show 4 * index % 4 = 0 by omega]
  rw [word, start]
  simp only [bytesOf, quotient 1 (by omega), quotient 2 (by omega), quotient 3 (by omega),
    remainder 1 (by omega), remainder 2 (by omega), remainder 3 (by omega)]
  ext i below
  simp only [BitVec.getElem_append, BitVec.getElem_extractLsb']
  grind

/-- The words an array leaves in the memory it is copied to. -/
theorem word_blit_inside (words : Nat → BitVec 32) (memory : Nat → BitVec 8) (start index : Nat)
    {count k : Nat} (inside : k < count) :
    word (blit (bytesOf words) (4 * start) memory (4 * index) (4 * count)) (index + k) = words (start + k) := by
  rw [← word_bytesOf words (start + k)]
  refine word_congr fun b small => ?_
  rw [show 4 * (index + k) + b = 4 * index + (4 * k + b) by omega, blit_inside _ _ _ _ (by omega)]
  congr 1
  omega

/-- A word that lies outside of the bytes copied stays as it was. -/
theorem word_blit_outside (source memory : Nat → BitVec 8) {start place count index : Nat}
    (outside : 4 * index + 4 ≤ place ∨ place + count ≤ 4 * index) :
    word (blit source start memory place count) index = word memory index :=
  word_congr fun k small => blit_outside source start memory (by omega)

end Words

end Blit
