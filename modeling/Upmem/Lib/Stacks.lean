import Mathlib.Data.Nat.Basic
import Mathlib.Data.List.Pairwise

namespace Stacks

/-- A block, and what its start is a multiple of. -/
structure Block where
  start : Nat
  bytes : Nat
  align : Nat

/-- Blocks that were put one behind the other, the last one first. -/
def Stacked (low : Nat) : Nat → List Block → Prop
  | top, [] => low ≤ top
  | top, block :: blocks =>
    block.start + block.bytes ≤ top ∧ block.align ∣ block.start ∧ Stacked low block.start blocks

def Block.Apart (block other : Block) : Prop :=
  block.start + block.bytes ≤ other.start ∨ other.start + other.bytes ≤ block.start

variable {low top top' : Nat} {blocks : List Block} {block : Block}

theorem Stacked.mono (stacked : Stacked low top blocks) (above : top ≤ top') : Stacked low top' blocks := by
  cases blocks with
  | nil => exact Nat.le_trans stacked above
  | cons block blocks => exact ⟨Nat.le_trans stacked.1 above, stacked.2⟩

theorem Stacked.push (stacked : Stacked low top blocks) (above : top ≤ block.start)
    (aligned : block.align ∣ block.start)
    (below : block.start + block.bytes ≤ top') : Stacked low top' (block :: blocks) :=
  ⟨below, aligned, stacked.mono above⟩

theorem Stacked.low_le (stacked : Stacked low top blocks) : low ≤ top := by
  induction blocks generalizing top with
  | nil => exact stacked
  | cons block blocks ih =>
    have below := ih stacked.2.2
    have above := stacked.1
    omega

theorem Stacked.inside (stacked : Stacked low top blocks) :
    ∀ block ∈ blocks, low ≤ block.start ∧ block.start + block.bytes ≤ top ∧ block.align ∣ block.start := by
  induction blocks generalizing top with
  | nil => exact fun block member => absurd member List.not_mem_nil
  | cons first blocks ih =>
    intro block member
    obtain rfl | earlier := List.mem_cons.mp member
    · exact ⟨stacked.2.2.low_le, stacked.1, stacked.2.1⟩
    · obtain ⟨above, below, aligned⟩ := ih stacked.2.2 block earlier
      have last := stacked.1
      exact ⟨above, by omega, aligned⟩

theorem Stacked.apart (stacked : Stacked low top blocks) : blocks.Pairwise Block.Apart := by
  induction blocks generalizing top with
  | nil => exact List.Pairwise.nil
  | cons first blocks ih =>
    refine List.pairwise_cons.mpr ⟨fun block member => ?_, ih stacked.2.2⟩
    exact .inr (stacked.2.2.inside block member).2.1

end Stacks
