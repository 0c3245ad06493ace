import Mathlib.Algebra.Group.Nat.Defs
import Mathlib.Data.List.Basic
import Mathlib.Data.Set.Pairwise.Basic

namespace BuddyTree

/-- A block of a range that is halved again and again: the half taken at each
step, the last one first. -/
abbrev Block := List Bool

section Order

/-- Neither block lies within the other. -/
def Apart (a b : Block) : Prop :=
  ¬ a <:+ b ∧ ¬ b <:+ a

instance : Std.Symm Apart where
  symm _ _ apart := And.symm apart

/-- The other half of the block that `a` is a half of. -/
def buddy : Block → Block
  | [] => []
  | half :: a => (!half) :: a

/-- What lies within a block is the block or lies within one of its halves. -/
theorem suffix_halves {a b : Block} (half : Bool) (within : a <:+ b) :
    b = a ∨ half :: a <:+ b ∨ (!half) :: a <:+ b := by
  obtain ⟨rest, rfl⟩ := within
  rcases List.eq_nil_or_concat rest with rfl | ⟨rest, last, rfl⟩
  · exact Or.inl rfl
  · have split : last = half ∨ last = !half := by cases last <;> cases half <;> decide
    refine Or.inr (split.imp ?_ ?_)
    all_goals
      rintro rfl
      exact ⟨rest, by simp⟩

theorem not_suffix_self_cons (half : Bool) (a : Block) : ¬ half :: a <:+ a := by
  intro within
  have length := within.length_le
  rw [List.length_cons] at length
  omega

end Order

section Blocks
variable (live : Set Block)

/-- No live block lies within `a`. -/
def Clear (a : Block) : Prop :=
  ∀ b ∈ live, ¬ a <:+ b

/-- No live block shares anything with `a`. -/
def Free (a : Block) : Prop :=
  ∀ b ∈ live, Apart a b

/-- `a` is one of the largest blocks in which nothing is live. -/
def Largest (a : Block) : Prop :=
  Clear live a ∧ (a = [] ∨ ¬ Clear live (buddy a))

variable {live}

theorem Free.clear {a : Block} (free : Free live a) : Clear live a :=
  fun b member => (free b member).1

theorem Clear.within {a b : Block} (clear : Clear live a) (within : a <:+ b) : Clear live b :=
  fun c member inside => clear c member (within.trans inside)

theorem Free.within {a b : Block} (free : Free live a) (within : a <:+ b) : Free live b := by
  intro c member
  refine ⟨free.clear.within within c member, fun above => ?_⟩
  rcases List.suffix_or_suffix_of_suffix within above with inside | outside
  · exact (free c member).1 inside
  · exact (free c member).2 outside

theorem clear_halves {a : Block} (half : Bool) (dead : a ∉ live) :
    Clear live a ↔ Clear live (half :: a) ∧ Clear live ((!half) :: a) := by
  constructor
  · intro clear
    exact ⟨clear.within (List.suffix_cons _ _), clear.within (List.suffix_cons _ _)⟩
  · rintro ⟨left, right⟩ b member within
    rcases suffix_halves half within with rfl | inLeft | inRight
    · exact dead member
    · exact left b member inLeft
    · exact right b member inRight

theorem Largest.free {a : Block} (apart : live.Pairwise Apart) (largest : Largest live a) : Free live a := by
  intro b member
  refine ⟨largest.1 b member, fun above => ?_⟩
  rcases largest.2 with rfl | occupied
  · rw [List.suffix_nil.mp above] at member
    exact largest.1 [] member List.suffix_rfl
  · cases a with
    | nil =>
      rw [List.suffix_nil.mp above] at member
      exact largest.1 [] member List.suffix_rfl
    | cons half a =>
      rcases List.suffix_cons_iff.mp above with rfl | above
      · exact largest.1 _ member List.suffix_rfl
      · refine occupied fun c other within => ?_
        have nested : b <:+ c := above.trans ((List.suffix_cons _ a).trans within)
        by_cases same : b = c
        · subst same
          exact not_suffix_self_cons _ a (within.trans above)
        · exact (apart member other same).1 nested

/-- A free block lies within a largest one. -/
theorem Free.largest {a : Block} (free : Free live a) : ∃ b, b <:+ a ∧ Largest live b := by
  induction a with
  | nil => exact ⟨[], List.suffix_rfl, free.clear, Or.inl rfl⟩
  | cons half a ih =>
    by_cases clear : Clear live ((!half) :: a)
    · have whole : Free live a := by
        intro c member
        refine ⟨fun within => ?_, fun above => (free c member).2 (above.trans (List.suffix_cons _ a))⟩
        rcases suffix_halves half within with rfl | inHalf | inOther
        · exact (free c member).2 (List.suffix_cons _ c)
        · exact (free c member).1 inHalf
        · exact clear c member inOther
      obtain ⟨b, within, largest⟩ := ih whole
      exact ⟨b, within.trans (List.suffix_cons _ a), largest⟩
    · exact ⟨half :: a, List.suffix_rfl, free.clear, Or.inr clear⟩

/-- What is clear after a block within a largest one has been taken. -/
theorem Largest.clear_insert {a b : Block} (largest : Largest live a) (within : a <:+ b) (c : Block) :
    Clear (insert b live) c ↔ Clear live c ∧ ¬ (a <:+ c ∧ c <:+ b) := by
  have insert_iff : Clear (insert b live) c ↔ Clear live c ∧ ¬ c <:+ b := by
    simp only [Clear, Set.forall_mem_insert]
    exact And.comm
  rw [insert_iff]
  refine and_congr_right fun clear => not_congr ⟨fun inside => ⟨?_, inside⟩, And.right⟩
  rcases List.suffix_or_suffix_of_suffix within inside with below | above
  · exact below
  · cases a with
    | nil => exact List.nil_suffix
    | cons half a =>
      rcases List.suffix_cons_iff.mp above with rfl | above
      · exact List.suffix_rfl
      · have occupied : ¬ Clear live ((!half) :: a) := largest.2.resolve_left (List.cons_ne_nil _ _)
        exact absurd (clear.within (above.trans (List.suffix_cons _ a))) occupied

theorem Free.insert {a : Block} (apart : live.Pairwise Apart) (free : Free live a) :
    (insert a live).Pairwise Apart :=
  Set.pairwise_insert_of_symm.mpr ⟨apart, fun b member _ => free b member⟩

/-- Blocks that do not hold `b` are clear without it when they were clear with it. -/
theorem clear_remove {a b : Block} (outside : ¬ a <:+ b) : Clear (live \ {b}) a ↔ Clear live a := by
  refine ⟨fun clear c member within => ?_, fun clear c member => clear c member.1⟩
  refine clear c ⟨member, ?_⟩ within
  rintro rfl
  exact outside within

/-- Only the block itself is live within a live block. -/
theorem clear_below {a b : Block} (apart : live.Pairwise Apart) (member : a ∈ live) (within : a <:+ b)
    (proper : b ≠ a) : Clear live b := by
  intro c other inside
  by_cases same : c = a
  · subst same
    exact proper (inside.eq_of_length (le_antisymm inside.length_le within.length_le))
  · exact (apart member other (Ne.symm same)).1 (within.trans inside)

theorem clear_self_removed {a : Block} (apart : live.Pairwise Apart) (member : a ∈ live) :
    Clear (live \ {a}) a := by
  rintro c ⟨other, differ⟩ within
  exact (apart member other fun same => differ same.symm).1 within

end Blocks

section Ranges

/-- The place of a block among the blocks of its size. -/
def index : Block → Nat
  | [] => 0
  | half :: a => 2 * index a + half.toNat

theorem index_lt (a : Block) : index a < 2 ^ a.length := by
  induction a with
  | nil => exact Nat.one_pos
  | cons half a ih =>
    have bit : half.toNat ≤ 1 := Bool.toNat_le half
    rw [index, List.length_cons, Nat.pow_succ]
    omega

theorem index_tail (half : Bool) (a : Block) : index (half :: a) / 2 = index a := by
  have bit : half.toNat ≤ 1 := Bool.toNat_le half
  rw [index]
  omega

theorem index_drop (a : Block) (count : Nat) : index (a.drop count) = index a / 2 ^ count := by
  induction count generalizing a with
  | zero => simp
  | succ count ih =>
    cases a with
    | nil => simp [index]
    | cons half a => rw [List.drop_succ_cons, ih, ← index_tail half a, Nat.div_div_eq_div_mul, Nat.pow_succ']

theorem index_injective {a b : Block} (lengths : a.length = b.length) (same : index a = index b) : a = b := by
  induction a generalizing b with
  | nil => exact (List.length_eq_zero_iff.mp lengths.symm).symm
  | cons half a ih =>
    cases b with
    | nil => cases lengths
    | cons half' b =>
      have halves : half.toNat = half'.toNat := by
        have bit := Bool.toNat_le half
        have bit' := Bool.toNat_le half'
        rw [index, index] at same
        omega
      have tails : index a = index b := by rw [← index_tail half a, ← index_tail half' b, same]
      have heads : half = half' := by cases half <;> cases half' <;> simp_all
      rw [ih (Nat.succ.inj lengths) tails, heads]

theorem exists_index {level i : Nat} (inside : i < 2 ^ level) : ∃ a : Block, a.length = level ∧ index a = i := by
  induction level generalizing i with
  | zero => exact ⟨[], rfl, (Nat.lt_one_iff.mp inside).symm⟩
  | succ level ih =>
    rw [Nat.pow_succ] at inside
    obtain ⟨a, length, half⟩ := @ih (i / 2) (by omega)
    refine ⟨decide (i % 2 = 1) :: a, by rw [List.length_cons, length], ?_⟩
    rw [index, half]
    rcases Nat.mod_two_eq_zero_or_one i with even | odd
    · rw [even]
      simp
      omega
    · rw [odd]
      simp
      omega

theorem suffix_iff_index {a b : Block} (longer : a.length ≤ b.length) :
    a <:+ b ↔ index b / 2 ^ (b.length - a.length) = index a := by
  rw [List.suffix_iff_eq_drop, ← index_drop]
  constructor
  · intro same
    rw [← same]
  · intro same
    exact (index_injective (by rw [List.length_drop]; omega) same).symm

variable (depth : Nat)

/-- The first unit of a block of a range of `2 ^ depth` units. -/
def start (a : Block) : Nat :=
  index a * 2 ^ (depth - a.length)

def size (a : Block) : Nat :=
  2 ^ (depth - a.length)

theorem start_add_size (a : Block) : start depth a + size depth a = (index a + 1) * size depth a := by
  rw [start, size, Nat.add_mul, Nat.one_mul]

variable {depth}

theorem size_mul {a b : Block} (deep : b.length ≤ depth) (longer : a.length ≤ b.length) :
    size depth a = 2 ^ (b.length - a.length) * size depth b := by
  rw [size, size, ← Nat.pow_add]
  congr 1
  omega

theorem inside {a : Block} (deep : a.length ≤ depth) : start depth a + size depth a ≤ 2 ^ depth := by
  rw [start_add_size]
  calc (index a + 1) * size depth a ≤ 2 ^ a.length * size depth a := Nat.mul_le_mul_right _ (index_lt a)
    _ = 2 ^ depth := by
      rw [size, ← Nat.pow_add]
      congr 1
      omega

theorem disjoint_of_longer {a b : Block} (deep : b.length ≤ depth) (longer : a.length ≤ b.length)
    (outside : ¬ a <:+ b) : start depth a + size depth a ≤ start depth b ∨
      start depth b + size depth b ≤ start depth a := by
  rw [suffix_iff_index longer] at outside
  set halvings := 2 ^ (b.length - a.length) with halvingsEq
  have positive : 0 < halvings := Nat.two_pow_pos _
  have sizes : size depth a = halvings * size depth b := size_mul deep longer
  rcases lt_or_gt_of_ne outside with before | after
  · right
    have bound : index b + 1 ≤ index a * halvings :=
      (Nat.div_lt_iff_lt_mul positive).mp before
    calc start depth b + size depth b = (index b + 1) * size depth b := start_add_size depth b
      _ ≤ index a * halvings * size depth b := Nat.mul_le_mul_right _ bound
      _ = start depth a := by rw [Nat.mul_assoc, ← sizes]; rfl
  · left
    have bound : (index a + 1) * halvings ≤ index b := (Nat.le_div_iff_mul_le positive).mp after
    calc start depth a + size depth a = (index a + 1) * halvings * size depth b := by
          rw [start_add_size, sizes, Nat.mul_assoc]
      _ ≤ index b * size depth b := Nat.mul_le_mul_right _ bound
      _ = start depth b := rfl

theorem Apart.disjoint {a b : Block} (deepA : a.length ≤ depth) (deepB : b.length ≤ depth) (apart : Apart a b) :
    start depth a + size depth a ≤ start depth b ∨ start depth b + size depth b ≤ start depth a := by
  rcases le_total a.length b.length with longer | shorter
  · exact disjoint_of_longer deepB longer apart.1
  · exact (disjoint_of_longer deepA shorter apart.2).symm

theorem suffix_range {a b : Block} (deep : b.length ≤ depth) (within : a <:+ b) :
    start depth a ≤ start depth b ∧ start depth b + size depth b ≤ start depth a + size depth a := by
  have longer := within.length_le
  have place := (suffix_iff_index longer).mp within
  have sizes : size depth a = 2 ^ (b.length - a.length) * size depth b := size_mul deep longer
  have split := Nat.div_add_mod (index b) (2 ^ (b.length - a.length))
  have small := Nat.mod_lt (index b) (Nat.two_pow_pos (b.length - a.length))
  rw [place] at split
  have lower : index a * 2 ^ (b.length - a.length) ≤ index b := by rw [Nat.mul_comm]; omega
  have upper : index b + 1 ≤ (index a + 1) * 2 ^ (b.length - a.length) := by
    rw [Nat.add_mul, Nat.mul_comm (index a)]
    omega
  constructor
  · calc start depth a = index a * 2 ^ (b.length - a.length) * size depth b := by
          rw [Nat.mul_assoc, ← sizes]; rfl
      _ ≤ index b * size depth b := Nat.mul_le_mul_right _ lower
  · calc start depth b + size depth b = (index b + 1) * size depth b := start_add_size depth b
      _ ≤ (index a + 1) * 2 ^ (b.length - a.length) * size depth b := Nat.mul_le_mul_right _ upper
      _ = start depth a + size depth a := by rw [start_add_size, sizes, Nat.mul_assoc]

/-- Blocks that share no unit are apart. -/
theorem apart_of_disjoint {a b : Block} (deepA : a.length ≤ depth) (deepB : b.length ≤ depth)
    (disjoint : start depth a + size depth a ≤ start depth b ∨ start depth b + size depth b ≤ start depth a) :
    Apart a b := by
  have positiveA : 0 < size depth a := Nat.two_pow_pos _
  have positiveB : 0 < size depth b := Nat.two_pow_pos _
  refine ⟨fun within => ?_, fun within => ?_⟩
  · have range := suffix_range deepB within
    omega
  · have range := suffix_range deepA within
    omega

end Ranges

end BuddyTree
