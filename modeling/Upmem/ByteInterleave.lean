import Mathlib.Data.List.Basic
import Mathlib.Data.BitVec
import Mathlib.Tactic.IntervalCases

namespace Upmem.ByteInterleave

/-- The bytes of a register or of a memory, from an address on. -/
abbrev Bytes := Nat → BitVec 8

/-- `byte_interleave`: the byte `j` of the word `i` of the output is the byte `i` of the word `j` of the input. -/
def byteInterleave (input : Bytes) : Bytes := fun p => input (8 * (p % 8) + p / 8)

section Intrinsics

/-- `_mm256_set_epi8` and the vectors of other elements of a byte: the last argument is the lowest. -/
def setEpi8 (bytes : List Nat) : Nat → Nat := fun p => bytes.reverse.getD p 0

/-- `_mm512_set_epi64`. -/
def setEpi64 (words : List (BitVec 64)) : Nat → Nat :=
  fun p => (words.reverse.getD (p / 8) 0 >>> (8 * (p % 8)) &&& 0xff#64).toNat

/-- `_mm256_setr_epi32` and `_mm512_setr_epi32`: the first argument is the lowest. -/
def setrEpi32 (words : List Nat) : Nat → Nat := fun k => words.getD k 0

/-- `_mm256_i32gather_epi32` and `_mm512_i32gather_epi32`, with a scale of 1. -/
def i32gatherEpi32 (base : Bytes) (vindex : Nat → Nat) : Bytes := fun p => base (vindex (p / 4) + p % 4)

/-- `_mm256_shuffle_epi8` and `_mm512_shuffle_epi8`, in each lane of 16 bytes. -/
def shuffleEpi8 (a : Bytes) (control : Nat → Nat) : Bytes :=
  fun p => if control p &&& 0x80 = 0 then a (16 * (p / 16) + control p % 16) else 0#8

/-- `_mm_shuffle_ps` of a register with itself: each field of two bits of `imm` selects a word of 32 bits. -/
def shufflePs (a : Bytes) (imm : Nat) : Bytes :=
  fun p => a (4 * (imm / 4 ^ (p / 4) % 4) + p % 4)

/-- `_mm_blend_ps`, over words of 32 bits. -/
def blendPs (a b : Bytes) (imm : Nat) : Bytes :=
  fun p => if imm.testBit (p / 4) then b p else a p

/-- `_mm512_permutexvar_epi8`, over all bytes of the register. -/
def permutexvarEpi8 (index : Nat → Nat) (a : Bytes) : Bytes := fun p => a (index p % 64)

/-- `_mm256_permutevar8x32_epi32` and `_mm512_permutexvar_epi32`, over the 32-bit words of the register. -/
def permuteEpi32 (words : Nat) (index : Nat → Nat) (a : Bytes) : Bytes :=
  fun p => a (4 * (index (p / 4) % words) + p % 4)

end Intrinsics

def byteInterleaveSse41 (input : Bytes) : Bytes :=
  let pshufbcnst0 := setEpi8 [15, 7, 11, 3, 13, 5, 9, 1, 14, 6, 10, 2, 12, 4, 8, 0]
  let pshufbcnst1 := setEpi8 [13, 5, 9, 1, 15, 7, 11, 3, 12, 4, 8, 0, 14, 6, 10, 2]
  let pshufbcnst2 := setEpi8 [11, 3, 15, 7, 9, 1, 13, 5, 10, 2, 14, 6, 8, 0, 12, 4]
  let pshufbcnst3 := setEpi8 [9, 1, 13, 5, 11, 3, 15, 7, 8, 0, 12, 4, 10, 2, 14, 6]
  let b0 := input
  let b1 := shufflePs (fun p => input (16 + p)) 0b10110001
  let b2 : Bytes := fun p => input (32 + p)
  let b3 := shufflePs (fun p => input (48 + p)) 0b10110001
  let t0 := blendPs b0 b1 0b1010
  let t1 := blendPs b2 b3 0b1010
  let t2 := blendPs b0 b1 0b0101
  let t3 := blendPs b2 b3 0b0101
  let b0 := shuffleEpi8 t0 pshufbcnst0
  let b1 := shuffleEpi8 t1 pshufbcnst1
  let b2 := shuffleEpi8 t2 pshufbcnst2
  let b3 := shuffleEpi8 t3 pshufbcnst3
  let t0 := blendPs b0 b1 0b1010
  let t1 := blendPs b0 b1 0b0101
  let t2 := blendPs b2 b3 0b1010
  let t3 := blendPs b2 b3 0b0101
  let t1 := shufflePs t1 0b10110001
  let t3 := shufflePs t3 0b10110001
  fun p =>
    if p < 16 then t0 p else if p < 32 then t1 (p - 16) else if p < 48 then t2 (p - 32) else t3 (p - 48)

def byteInterleaveAvx2 (input : Bytes) : Bytes :=
  let tm := setEpi8 [15, 11, 7, 3, 14, 10, 6, 2, 13, 9, 5, 1, 12, 8, 4, 0,
    15, 11, 7, 3, 14, 10, 6, 2, 13, 9, 5, 1, 12, 8, 4, 0]
  let vindex := setrEpi32 [0, 8, 16, 24, 32, 40, 48, 56]
  let perm := setrEpi32 [0, 4, 1, 5, 2, 6, 3, 7]
  let load0 := i32gatherEpi32 input vindex
  let load1 := i32gatherEpi32 (fun p => input (4 + p)) vindex
  let transpose0 := shuffleEpi8 load0 tm
  let transpose1 := shuffleEpi8 load1 tm
  let final0 := permuteEpi32 8 perm transpose0
  let final1 := permuteEpi32 8 perm transpose1
  fun p => if p < 32 then final0 p else final1 (p - 32)

def byteInterleaveAvx512 (input : Bytes) : Bytes :=
  let mask := setEpi64 [0x0f0b07030e0a0602#64, 0x0d0905010c080400#64, 0x0f0b07030e0a0602#64, 0x0d0905010c080400#64,
    0x0f0b07030e0a0602#64, 0x0d0905010c080400#64, 0x0f0b07030e0a0602#64, 0x0d0905010c080400#64]
  let vindex := setrEpi32 [0, 8, 16, 24, 32, 40, 48, 56, 4, 12, 20, 28, 36, 44, 52, 60]
  let perm := setrEpi32 [0, 4, 1, 5, 2, 6, 3, 7, 8, 12, 9, 13, 10, 14, 11, 15]
  let load := i32gatherEpi32 input vindex
  let transpose := shuffleEpi8 load mask
  permuteEpi32 16 perm transpose

def trans8x8shuf : Nat → Nat :=
  setEpi64 [0x0f0b07030e0a0602#64, 0x0d0905010c080400#64, 0x0f0b07030e0a0602#64, 0x0d0905010c080400#64,
    0x0f0b07030e0a0602#64, 0x0d0905010c080400#64, 0x0f0b07030e0a0602#64, 0x0d0905010c080400#64]

/-- `byte_interleave_avx512vbmi`, whose constant is that of a shuffle in lanes of 16 bytes. -/
def byteInterleaveAvx512vbmi (src : Bytes) : Bytes := permutexvarEpi8 trans8x8shuf src

theorem byteInterleaveSse41_eq (input : Bytes) {p : Nat} (inside : p < 64) :
    byteInterleaveSse41 input p = byteInterleave input p := by
  interval_cases p <;> rfl

theorem byteInterleaveAvx2_eq (input : Bytes) {p : Nat} (inside : p < 64) :
    byteInterleaveAvx2 input p = byteInterleave input p := by
  interval_cases p <;> rfl

theorem byteInterleaveAvx512_eq (input : Bytes) {p : Nat} (inside : p < 64) :
    byteInterleaveAvx512 input p = byteInterleave input p := by
  interval_cases p <;> rfl

theorem byteInterleave_byteInterleave (input : Bytes) {p : Nat} (inside : p < 64) :
    byteInterleave (byteInterleave input) p = input p := by
  rw [byteInterleave, byteInterleave]
  congr 1
  omega

/-- Where the AVX512VBMI kernel takes the byte from that belongs where the byte `q` of the input does. -/
def misplaced (q : Nat) : Nat := trans8x8shuf (8 * (q % 8) + q / 8) % 64

theorem misplaced_four : ∀ q < 64, misplaced (misplaced (misplaced (misplaced q))) = 0 := by decide

/-- The AVX512VBMI kernel moves every byte to a wrong place but for the first, by way of
which all bytes are compared. -/
theorem byteInterleaveAvx512vbmi_iff (input : Bytes) :
    (∀ p < 64, byteInterleaveAvx512vbmi input p = byteInterleave input p) ↔ ∀ p < 64, input p = input 0 := by
  constructor
  · intro agrees
    have step (q : Nat) (inside : q < 64) : input q = input (misplaced q) := by
      have here := agrees (8 * (q % 8) + q / 8) (by omega)
      rw [byteInterleave, show 8 * ((8 * (q % 8) + q / 8) % 8) + (8 * (q % 8) + q / 8) / 8 = q by omega] at here
      exact here.symm
    have below (q : Nat) : misplaced q < 64 := Nat.mod_lt _ (by decide)
    intro q inside
    rw [step q inside, step _ (below _), step _ (below _), step _ (below _), misplaced_four q inside]
  · intro uniform p inside
    rw [byteInterleave, uniform _ (by omega)]
    exact uniform _ (Nat.mod_lt _ (by decide))

/-- The kernels compute the same block, and computing it twice gives back the input. -/
structure KernelsAgree (input : Bytes) : Prop where
  sse41 : ∀ p < 64, byteInterleaveSse41 input p = byteInterleave input p
  avx2 : ∀ p < 64, byteInterleaveAvx2 input p = byteInterleave input p
  avx512 : ∀ p < 64, byteInterleaveAvx512 input p = byteInterleave input p
  avx512vbmi : ∀ p < 64, byteInterleaveAvx512vbmi input p = byteInterleave input p
  involution : ∀ p < 64, byteInterleave (byteInterleave input) p = input p

/-- Only the AVX512VBMI kernel differs, and it does for every block with two different bytes. -/
theorem kernelsAgree_iff (input : Bytes) : KernelsAgree input ↔ ∀ p < 64, input p = input 0 := by
  rw [← byteInterleaveAvx512vbmi_iff]
  refine ⟨KernelsAgree.avx512vbmi, fun agrees => ⟨?_, ?_, ?_, agrees, ?_⟩⟩
  · exact fun p inside => byteInterleaveSse41_eq input inside
  · exact fun p inside => byteInterleaveAvx2_eq input inside
  · exact fun p inside => byteInterleaveAvx512_eq input inside
  · exact fun p inside => byteInterleave_byteInterleave input inside

theorem kernels_differ : ¬ KernelsAgree (fun p => if p = 8 then 1 else 0) := fun agree =>
  absurd (agree.avx512vbmi 1 (by decide)) (by decide)

end Upmem.ByteInterleave
