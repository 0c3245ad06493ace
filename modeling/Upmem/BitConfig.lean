import Mathlib.Tactic.IntervalCases
import Upmem.Lib.BitFields

namespace Upmem.BitConfig
open BitFields

def NR_NIBBLES_PER_BYTE : Nat := 2
def NR_BITS_PER_NIBBLE : Nat := 4

/-- `struct dpu_bit_config`. -/
structure DpuBitConfig where
  cpu2dpu : BitVec 16
  dpu2cpu : BitVec 16
  nibbleSwap : BitVec 8

/-- `index_in_nibble`. -/
def indexInNibble (code : BitVec 32) : Nat := [0, 0, 1, 0, 2, 0, 0, 0, 3, 0, 0, 0, 0, 0, 0, 0].getD code.toNat 0

def getReciprocal (code : BitVec 8) : BitVec 8 :=
  ((List.range 4).foldl (fun (code, reciproc) i =>
    let index := code &&& 0b11#8
    (code >>> 2, reciproc ||| BitVec.ofNat 8 i <<< (index <<< 1).toNat)) (code, 0#8)).2

/-- A nibble of the pattern. -/
def codeAt (bitOrderResult : BitVec 32) (shift : Nat) : BitVec 32 := bitOrderResult >>> shift &&& 0b1111#32

/-- `l_syndrome`, and from the nibble 4 on `m_syndrome`. -/
def syndrome (bitOrderResult : BitVec 32) (shift : Nat) : BitVec 8 :=
  0b01#8 <<< (indexInNibble (codeAt bitOrderResult shift) <<< 1) |||
    0b10#8 <<< (indexInNibble (codeAt bitOrderResult (shift + 8)) <<< 1) |||
    0b11#8 <<< (indexInNibble (codeAt bitOrderResult (shift + 16)) <<< 1)

def dpuBitConfigCompute (bitOrderResult : BitVec 32) : DpuBitConfig :=
  let nibbleSwap := if codeAt bitOrderResult 28 ≠ 0#32 then 0xFF#8 else 0x00#8
  let swapped := decide (nibbleSwap ≠ 0#8)
  let mSyndrome := syndrome bitOrderResult 4
  let lSyndrome := syndrome bitOrderResult 0
  let mmSyndrome := if swapped then getReciprocal lSyndrome else getReciprocal mSyndrome
  let llSyndrome := if swapped then getReciprocal mSyndrome else getReciprocal lSyndrome
  let config3124 := if swapped then getReciprocal llSyndrome else getReciprocal mmSyndrome
  let config2316 := if swapped then getReciprocal mmSyndrome else getReciprocal llSyndrome
  let config4740 := if swapped then getReciprocal lSyndrome else getReciprocal mSyndrome
  let config3932 := if swapped then getReciprocal mSyndrome else getReciprocal lSyndrome
  { nibbleSwap := nibbleSwap
    cpu2dpu := config2316.setWidth 16 ||| config3124.setWidth 16 <<< 8
    dpu2cpu := config3932.setWidth 16 ||| config4740.setWidth 16 <<< 8 }

/-- The innermost loop: the bits of a nibble. -/
def transformNibble (nibbleTransformation nibbleValue : BitVec 8) : BitVec 8 :=
  (List.range NR_BITS_PER_NIBBLE).foldl (fun nibbleTransformed transformationId =>
    let idBit := nibbleTransformation >>> (transformationId <<< 1) &&& 0x3#8
    let bitValue := nibbleValue >>> transformationId &&& 0x1#8
    nibbleTransformed ||| bitValue <<< idBit.toNat) 0#8

/-- The place of a nibble once it is transformed. -/
def nibbleTarget (nibbleSwap : BitVec 8) (nibbleId : Nat) : Nat :=
  if nibbleSwap ≠ 0#8 then (nibbleId + 1) % 2 else nibbleId

def transformByte (transformation : BitVec 16) (nibbleSwap byteValue : BitVec 8) : BitVec 8 :=
  (List.range NR_NIBBLES_PER_BYTE).foldl (fun byteTransformed nibbleId =>
    let nibbleValue := byteValue >>> (nibbleId <<< 2) &&& 0xF#8
    let nibbleTransformation := (transformation >>> (nibbleId <<< 3) &&& 0xFF#16).setWidth 8
    byteTransformed |||
      transformNibble nibbleTransformation nibbleValue <<< (nibbleTarget nibbleSwap nibbleId <<< 2)) 0#8

def transformValue (transformation : BitVec 16) (nibbleSwap : BitVec 8) (value : BitVec 32) : BitVec 32 :=
  (List.range 4).foldl (fun transformed byteId =>
    let byteValue := (value >>> (byteId <<< 3) &&& 0xFF#32).setWidth 8
    transformed ||| (transformByte transformation nibbleSwap byteValue).setWidth 32 <<< (byteId <<< 3)) 0#32

def dpuBitConfigDpu2cpu (config : DpuBitConfig) (value : BitVec 32) : BitVec 32 :=
  transformValue config.dpu2cpu config.nibbleSwap value

def dpuBitConfigCpu2dpu (config : DpuBitConfig) (value : BitVec 32) : BitVec 32 :=
  transformValue config.cpu2dpu config.nibbleSwap value

/-- Where a transformation puts a bit of a nibble. -/
def target (transformation : BitVec 8) (i : Nat) : Nat := (field 2 transformation i).toNat

theorem target_lt (transformation : BitVec 8) (i : Nat) : target transformation i < 4 :=
  (field 2 transformation i).isLt

/-- The loop shifts its code down, so it reads one field after the other. -/
theorem getReciprocal_eq (code : BitVec 8) : getReciprocal code = place 8 4 (target code) fun i =>
      BitVec.ofNat 2 i := by
  have steps : getReciprocal code = (List.range 4).foldl (fun reciproc i =>
      reciproc ||| BitVec.ofNat 8 i <<< ((code >>> (2 * i) &&& 0b11#8) <<< 1).toNat) 0#8 := by
    simp only [getReciprocal, List.range_succ, List.range_zero, List.nil_append, List.cons_append, List.foldl_cons,
      List.foldl_nil]
    rfl
  have index (i : Nat) : ((code >>> (2 * i) &&& 0b11#8) <<< 1).toNat = 2 * target code i := by
    have bound := target_lt code i
    rw [BitVec.toNat_shiftLeft, toNat_masked (d := 2) code 0b11#8 i rfl, Nat.shiftLeft_eq, ← target]
    omega
  rw [steps, place]
  refine List.foldl_ext _ _ _ fun reciproc i member => ?_
  have small : i < 4 := List.mem_range.mp member
  have value : BitVec.ofNat 8 i = (BitVec.ofNat 2 i).setWidth 8 := by interval_cases i <;> rfl
  rw [index, value]

/-- A reciprocal undoes its code. -/
theorem getReciprocal_inverse {code : BitVec 8}
    (injective : ∀ i < 4, ∀ j < 4, target code j = target code i → j = i) :
    Inverse 4 (target code) (target (getReciprocal code)) := by
  refine inverse_of_left (fun i _ => target_lt code i) fun i small => ?_
  have bound := target_lt code i
  rw [getReciprocal_eq, target, field_place small (by omega) (injective i small), BitVec.toNat_ofNat]
  omega

theorem getReciprocal_of_inverse {code : BitVec 8} {back : Nat → Nat} (inverse : Inverse 4 (target code) back) :
    Inverse 4 (target code) (target (getReciprocal code)) :=
  getReciprocal_inverse fun _ small _ inside same => inverse.alone small inside same

theorem transformNibble_eq (transformation : BitVec 8) (nibble : BitVec 4) :
    transformNibble transformation (nibble.setWidth 8) =
      (permute 1 4 (target transformation) nibble).setWidth 8 := by
  rw [permute, ← place_widen (fun i _ => by have := target_lt transformation i; omega), transformNibble, place]
  refine List.foldl_ext _ _ _ fun nibbleTransformed i member => ?_
  have small : i < 4 := List.mem_range.mp member
  have idBit : (transformation >>> (i <<< 1) &&& 0x3#8).toNat = target transformation i := by
    rw [Nat.shiftLeft_eq, Nat.mul_comm]
    exact toNat_masked transformation 0x3#8 i rfl
  have bitValue := masked_eq (d := 1) (nibble.setWidth 8) 0x1#8 i rfl (by decide)
  rw [Nat.one_mul, field_setWidth nibble (by omega) (by decide)] at bitValue
  simp only [idBit, bitValue, Nat.one_mul]

theorem transformByte_eq (transformation : BitVec 16) (nibbleSwap byteValue : BitVec 8) :
    transformByte transformation nibbleSwap byteValue = place 8 2 (nibbleTarget nibbleSwap) fun nibbleId =>
      permute 1 4 (target (field 8 transformation nibbleId)) (field 4 byteValue nibbleId) := by
  rw [transformByte, place]
  refine List.foldl_ext _ _ _ fun byteTransformed i member => ?_
  have nibble : byteValue >>> (i <<< 2) &&& 0xF#8 = (field 4 byteValue i).setWidth 8 := by
    rw [Nat.shiftLeft_eq, Nat.mul_comm]
    exact masked_eq byteValue 0xF#8 i rfl (by decide)
  have half : (transformation >>> (i <<< 3) &&& 0xFF#16).setWidth 8 = field 8 transformation i := by
    rw [Nat.shiftLeft_eq, Nat.mul_comm, show 2 ^ 3 = 8 from rfl, masked_eq transformation 0xFF#16 i rfl (by decide)]
    simp
  have shift : nibbleTarget nibbleSwap i <<< 2 = 4 * nibbleTarget nibbleSwap i := by
    rw [Nat.shiftLeft_eq, Nat.mul_comm]
  simp only [nibble, half, shift, transformNibble_eq]

theorem transformValue_eq (transformation : BitVec 16) (nibbleSwap : BitVec 8) (value : BitVec 32) :
    transformValue transformation nibbleSwap value =
      place 32 4 id fun byteId => transformByte transformation nibbleSwap (field 8 value byteId) := by
  rw [transformValue, place]
  refine List.foldl_ext _ _ _ fun transformed i member => ?_
  have shift : i <<< 3 = 8 * i := by rw [Nat.shiftLeft_eq, Nat.mul_comm]
  have byte : (value >>> (8 * i) &&& 0xFF#32).setWidth 8 = field 8 value i := by
    rw [masked_eq value 0xFF#32 i rfl (by decide)]
    simp
  simp only [shift, byte, id_eq]

theorem nibbleTarget_inverse (nibbleSwap : BitVec 8) :
    Inverse 2 (nibbleTarget nibbleSwap) (nibbleTarget nibbleSwap) := by
  refine inverse_of_left (fun i small => ?_) fun i small => ?_
  all_goals
    unfold nibbleTarget
    split <;> omega

theorem id_inverse (n : Nat) : Inverse n id id := ⟨fun _ => id, fun _ => id, fun _ _ => rfl, fun _ _ => rfl⟩

/-- The transformation of each nibble is undone by that of the place where the nibble goes. -/
def Undoes (nibbleSwap : BitVec 8) (transformation back : BitVec 16) : Prop :=
  ∀ nibbleId < 2, Inverse 4 (target (field 8 transformation nibbleId))
    (target (field 8 back (nibbleTarget nibbleSwap nibbleId)))

theorem Undoes.symm {nibbleSwap : BitVec 8} {transformation back : BitVec 16}
    (undoes : Undoes nibbleSwap transformation back) :
    Undoes nibbleSwap back transformation := by
  intro nibbleId small
  have swap := nibbleTarget_inverse nibbleSwap
  have inverse := (undoes _ (swap.lt nibbleId small)).symm
  rwa [swap.left nibbleId small] at inverse

section Transform
variable {nibbleSwap : BitVec 8} {transformation back : BitVec 16}

theorem Undoes.byte (undoes : Undoes nibbleSwap transformation back) (byteValue : BitVec 8) :
    transformByte back nibbleSwap (transformByte transformation nibbleSwap byteValue) = byteValue := by
  have swap := nibbleTarget_inverse nibbleSwap
  refine eq_of_fields (d := 4) (n := 2) (by decide) fun nibbleId small => ?_
  rw [transformByte_eq back, swap.field_place (by decide) small, transformByte_eq transformation,
    swap.field_place (by decide) (swap.lt nibbleId small), swap.left nibbleId small]
  exact (undoes nibbleId small).permute_permute rfl _

theorem Undoes.value (undoes : Undoes nibbleSwap transformation back) (value : BitVec 32) :
    transformValue back nibbleSwap (transformValue transformation nibbleSwap value) = value := by
  refine eq_of_fields (d := 8) (n := 4) (by decide) fun byteId small => ?_
  rw [transformValue_eq back, (id_inverse 4).field_place (by decide) small, id_eq, transformValue_eq transformation,
    (id_inverse 4).field_place (by decide) small, id_eq]
  exact undoes.byte _

end Transform

/-- The code of a single bit. -/
def OneHot (code : BitVec 32) : Prop := code = 1#32 ∨ code = 2#32 ∨ code = 4#32 ∨ code = 8#32

/-- The fields of the pattern from a nibble on are three distinct one-hot codes. -/
structure Permutes (bitOrderResult : BitVec 32) (shift : Nat) : Prop where
  first : OneHot (codeAt bitOrderResult shift)
  second : OneHot (codeAt bitOrderResult (shift + 8))
  third : OneHot (codeAt bitOrderResult (shift + 16))
  first_second : codeAt bitOrderResult shift ≠ codeAt bitOrderResult (shift + 8)
  first_third : codeAt bitOrderResult shift ≠ codeAt bitOrderResult (shift + 16)
  second_third : codeAt bitOrderResult (shift + 8) ≠ codeAt bitOrderResult (shift + 16)

/-- The three values at distinct places, and 0 at the place that is left. -/
theorem values_injective : ∀ a b c : Fin 4, a ≠ b → a ≠ c → b ≠ c → ∀ i < 4, ∀ j < 4,
    target (0b01#8 <<< (a.val <<< 1) ||| 0b10#8 <<< (b.val <<< 1) ||| 0b11#8 <<< (c.val <<< 1)) j =
      target (0b01#8 <<< (a.val <<< 1) ||| 0b10#8 <<< (b.val <<< 1) ||| 0b11#8 <<< (c.val <<< 1)) i → j = i := by
  decide

theorem OneHot.indexInNibble_lt {code : BitVec 32} (oneHot : OneHot code) : indexInNibble code < 4 := by
  rcases oneHot with rfl | rfl | rfl | rfl <;> decide

theorem OneHot.eq_of_indexInNibble {code other : BitVec 32} (oneHot : OneHot code) (oneHot' : OneHot other)
    (same : indexInNibble code = indexInNibble other) : code = other := by
  rcases oneHot with rfl | rfl | rfl | rfl <;> rcases oneHot' with rfl | rfl | rfl | rfl <;> revert same <;> decide

theorem Permutes.inverse {bitOrderResult : BitVec 32} {shift : Nat} (permutes : Permutes bitOrderResult shift) :
    Inverse 4 (target (syndrome bitOrderResult shift))
    (target (getReciprocal (syndrome bitOrderResult shift))) := by
  obtain ⟨first, second, third, first_second, first_third, second_third⟩ := permutes
  refine getReciprocal_inverse (values_injective ⟨_, first.indexInNibble_lt⟩ ⟨_, second.indexInNibble_lt⟩
    ⟨_, third.indexInNibble_lt⟩ ?_ ?_ ?_)
  · exact fun same => first_second (first.eq_of_indexInNibble second (congrArg Fin.val same))
  · exact fun same => first_third (first.eq_of_indexInNibble third (congrArg Fin.val same))
  · exact fun same => second_third (second.eq_of_indexInNibble third (congrArg Fin.val same))

theorem field_low (low high : BitVec 8) : field 8 (low.setWidth 16 ||| high.setWidth 16 <<< 8) 0 = low := by
  refine BitVec.eq_of_getLsbD_eq fun b bound => ?_
  rw [field_getLsbD, BitVec.getLsbD_or, BitVec.getLsbD_shiftLeft, BitVec.getLsbD_setWidth]
  simp [bound, show b < 16 by omega]

theorem field_high (low high : BitVec 8) : field 8 (low.setWidth 16 ||| high.setWidth 16 <<< 8) 1 = high := by
  refine BitVec.eq_of_getLsbD_eq fun b bound => ?_
  rw [field_getLsbD, BitVec.getLsbD_or, BitVec.getLsbD_shiftLeft, BitVec.getLsbD_setWidth, BitVec.getLsbD_setWidth]
  simp [bound, show 8 + b < 16 by omega, show b < 16 by omega]

/-- The configuration for reading undoes the one for writing. -/
theorem dpuBitConfigCompute_undoes {bitOrderResult : BitVec 32} (low : Permutes bitOrderResult 0)
    (high : Permutes bitOrderResult 4) :
    Undoes (dpuBitConfigCompute bitOrderResult).nibbleSwap (dpuBitConfigCompute bitOrderResult).cpu2dpu
      (dpuBitConfigCompute bitOrderResult).dpu2cpu := by
  have lowBack := (getReciprocal_of_inverse low.inverse.symm).symm
  have highBack := (getReciprocal_of_inverse high.inverse.symm).symm
  intro nibbleId small
  by_cases swapped : codeAt bitOrderResult 28 ≠ 0#32
  · interval_cases nibbleId <;> simp [dpuBitConfigCompute, swapped, nibbleTarget, field_low, field_high]
      <;> assumption
  · interval_cases nibbleId <;> simp [dpuBitConfigCompute, swapped, nibbleTarget, field_low, field_high]
      <;> assumption

/-- For two permutations in the pattern, with or without a nibble swap, the two transformations are inverse to each
other on every value. -/
theorem cpu2dpu_dpu2cpu_inverse {bitOrderResult : BitVec 32} (low : Permutes bitOrderResult 0)
    (high : Permutes bitOrderResult 4) (value : BitVec 32) :
    dpuBitConfigCpu2dpu (dpuBitConfigCompute bitOrderResult)
        (dpuBitConfigDpu2cpu (dpuBitConfigCompute bitOrderResult) value) = value ∧
      dpuBitConfigDpu2cpu (dpuBitConfigCompute bitOrderResult)
        (dpuBitConfigCpu2dpu (dpuBitConfigCompute bitOrderResult) value) = value := by
  have undoes := dpuBitConfigCompute_undoes low high
  exact ⟨undoes.symm.value value, undoes.value value⟩

/-- A pattern with a nibble swap and two permutations that differ. -/
theorem cpu2dpu_dpu2cpu_inverse_swapped :
    dpuBitConfigCpu2dpu (dpuBitConfigCompute 0xF0144281#32)
        (dpuBitConfigDpu2cpu (dpuBitConfigCompute 0xF0144281#32) 0x12345678#32) = 0x12345678#32 ∧
      dpuBitConfigDpu2cpu (dpuBitConfigCompute 0xF0144281#32)
        (dpuBitConfigCpu2dpu (dpuBitConfigCompute 0xF0144281#32) 0x12345678#32) = 0x12345678#32 :=
  cpu2dpu_dpu2cpu_inverse
    ⟨.inl rfl, .inr (.inl rfl), .inr (.inr (.inl rfl)), by decide, by decide, by decide⟩
    ⟨.inr (.inr (.inr rfl)), .inr (.inr (.inl rfl)), .inl rfl, by decide, by decide, by decide⟩ _

end Upmem.BitConfig
