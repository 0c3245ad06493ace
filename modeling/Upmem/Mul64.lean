import Mathlib.Tactic.IntervalCases
import Upmem.Lib.DigitProducts

namespace Upmem.Mul64
open DigitProducts

/-- The product of a byte of each word. -/
def byteProduct (i j : Nat) (a b : BitVec 32) : BitVec 16 :=
  ((a >>> (8 * i) &&& 0xff#32) * (b >>> (8 * j) &&& 0xff#32)).setWidth 16

def mul00 (a b : BitVec 32) : BitVec 16 := byteProduct 0 0 a b
def mul01 (a b : BitVec 32) : BitVec 16 := byteProduct 0 1 a b
def mul02 (a b : BitVec 32) : BitVec 16 := mul00 a (b >>> 16)
def mul03 (a b : BitVec 32) : BitVec 16 := mul01 a (b >>> 16)
def mul11 (a b : BitVec 32) : BitVec 16 := byteProduct 1 1 a b
def mul12 (a b : BitVec 32) : BitVec 16 := byteProduct 1 2 a b
def mul13 (a b : BitVec 32) : BitVec 16 := mul11 a (b >>> 16)
def mul22 (a b : BitVec 32) : BitVec 16 := mul00 (a >>> 16) (b >>> 16)
def mul23 (a b : BitVec 32) : BitVec 16 := mul01 (a >>> 16) (b >>> 16)
def mul33 (a b : BitVec 32) : BitVec 16 := mul11 (a >>> 16) (b >>> 16)

def mulx0y0 (xl yl : BitVec 32) : BitVec 16 := mul00 xl yl
def mulx0y1 (xl yl : BitVec 32) : BitVec 16 := mul01 xl yl
def mulx0y2 (xl yl : BitVec 32) : BitVec 16 := mul02 xl yl
def mulx0y3 (xl yl : BitVec 32) : BitVec 16 := mul03 xl yl
def mulx0y4 (xl yh : BitVec 32) : BitVec 16 := mul00 xl yh
def mulx0y5 (xl yh : BitVec 32) : BitVec 16 := mul01 xl yh
def mulx0y6 (xl yh : BitVec 32) : BitVec 16 := mul02 xl yh
def mulx0y7 (xl yh : BitVec 32) : BitVec 16 := mul03 xl yh

def mulx1y1 (xl yl : BitVec 32) : BitVec 16 := mul11 xl yl
def mulx1y2 (xl yl : BitVec 32) : BitVec 16 := mul12 xl yl
def mulx1y3 (xl yl : BitVec 32) : BitVec 16 := mul13 xl yl
def mulx1y4 (xl yh : BitVec 32) : BitVec 16 := mul01 yh xl
def mulx1y5 (xl yh : BitVec 32) : BitVec 16 := mul11 xl yh
def mulx1y6 (xl yh : BitVec 32) : BitVec 16 := mul12 xl yh

def mulx2y2 (xl yl : BitVec 32) : BitVec 16 := mul22 xl yl
def mulx2y3 (xl yl : BitVec 32) : BitVec 16 := mul23 xl yl
def mulx2y4 (xl yh : BitVec 32) : BitVec 16 := mul02 yh xl
def mulx2y5 (xl yh : BitVec 32) : BitVec 16 := mul12 yh xl

def mulx3y3 (xl yl : BitVec 32) : BitVec 16 := mul33 xl yl
def mulx3y4 (xl yh : BitVec 32) : BitVec 16 := mul03 yh xl

def mulx1y0 (xl yl : BitVec 32) : BitVec 16 := mulx0y1 yl xl
def mulx2y0 (xl yl : BitVec 32) : BitVec 16 := mulx0y2 yl xl
def mulx2y1 (xl yl : BitVec 32) : BitVec 16 := mulx1y2 yl xl
def mulx3y0 (xl yl : BitVec 32) : BitVec 16 := mulx0y3 yl xl
def mulx3y1 (xl yl : BitVec 32) : BitVec 16 := mulx1y3 yl xl
def mulx3y2 (xl yl : BitVec 32) : BitVec 16 := mulx2y3 yl xl
def mulx4y0 (xh yl : BitVec 32) : BitVec 16 := mulx0y4 yl xh
def mulx4y1 (xh yl : BitVec 32) : BitVec 16 := mulx1y4 yl xh
def mulx4y2 (xh yl : BitVec 32) : BitVec 16 := mulx2y4 yl xh
def mulx4y3 (xh yl : BitVec 32) : BitVec 16 := mulx3y4 yl xh
def mulx5y0 (xh yl : BitVec 32) : BitVec 16 := mulx0y5 yl xh
def mulx5y1 (xh yl : BitVec 32) : BitVec 16 := mulx1y5 yl xh
def mulx5y2 (xh yl : BitVec 32) : BitVec 16 := mulx2y5 yl xh
def mulx6y0 (xh yl : BitVec 32) : BitVec 16 := mulx0y6 yl xh
def mulx6y1 (xh yl : BitVec 32) : BitVec 16 := mulx1y6 yl xh
def mulx7y0 (xh yl : BitVec 32) : BitVec 16 := mulx0y7 yl xh

/-- Products are promoted before they are added. -/
def total (products : List (BitVec 16)) : BitVec 32 :=
  products.foldl (fun sum product => sum + product.setWidth 32) 0#32

/-- Each fragment of the product: `p0` to `p7`. -/
def fragment (xl xh yl yh : BitVec 32) : Nat → BitVec 32
  | 0 => total [mulx0y0 xl yl]
  | 1 => total [mulx0y1 xl yl, mulx1y0 xl yl]
  | 2 => total [mulx0y2 xl yl, mulx2y0 xl yl, mulx1y1 xl yl]
  | 3 => total [mulx0y3 xl yl, mulx3y0 xl yl, mulx1y2 xl yl, mulx2y1 xl yl]
  | 4 => total [mulx0y4 xl yh, mulx4y0 xh yl, mulx1y3 xl yl, mulx3y1 xl yl, mulx2y2 xl yl]
  | 5 => total [mulx0y5 xl yh, mulx5y0 xh yl, mulx1y4 xl yh, mulx4y1 xh yl, mulx2y3 xl yl, mulx3y2 xl yl]
  | 6 => total [mulx0y6 xl yh, mulx6y0 xh yl, mulx1y5 xl yh, mulx5y1 xh yl, mulx2y4 xl yh, mulx4y2 xh yl,
      mulx3y3 xl yl]
  | 7 => total [mulx0y7 xl yh, mulx7y0 xh yl, mulx1y6 xl yh, mulx6y1 xh yl, mulx2y5 xl yh, mulx5y2 xh yl,
      mulx3y4 xl yh,
      mulx4y3 xh yl]
  | _ => 0#32

/-- `__muldi3`. -/
def muldi3 (x y : BitVec 64) : BitVec 64 :=
  let xl := x.setWidth 32
  let xh := (x >>> 32).setWidth 32
  let yl := y.setWidth 32
  let yh := (y >>> 32).setWidth 32
  let p := fragment xl xh yl yh
  let rl := (p 0).setWidth 64 + (p 1).setWidth 64 <<< 8 + (p 2).setWidth 64 <<< 16 + (p 3).setWidth 64 <<< 24
  let rh := p 4 + p 5 <<< 8 + p 6 <<< 16 + p 7 <<< 24
  rl + rh.setWidth 64 <<< 32

abbrev byte (x i : Nat) : Nat := digit 256 x i

theorem byte_lt (x i : Nat) : byte x i < 256 := Nat.mod_lt _ (by decide)

theorem masked_toNat (a : BitVec 32) (i : Nat) : (a >>> (8 * i) &&& 0xff#32).toNat = byte a.toNat i := by
  have power : 256 ^ i = 2 ^ (8 * i) := by rw [Nat.pow_mul]
  rw [BitVec.toNat_and, BitVec.toNat_ushiftRight, show (0xff#32).toNat = 2 ^ 8 - 1 from rfl,
    Nat.and_two_pow_sub_one_eq_mod,
    Nat.shiftRight_eq_div_pow, byte, digit, power]

theorem byteProduct_toNat (i j : Nat) (a b : BitVec 32) :
    (byteProduct i j a b).toNat = byte a.toNat i * byte b.toNat j := by
  have small : byte a.toNat i * byte b.toNat j ≤ 255 * 255 :=
    Nat.mul_le_mul (Nat.le_of_lt_succ (byte_lt ..)) (Nat.le_of_lt_succ (byte_lt ..))
  rw [byteProduct, BitVec.toNat_setWidth, BitVec.toNat_mul, masked_toNat, masked_toNat]
  omega

/-- The bytes of the upper half of a word. -/
theorem byte_ushiftRight (a : BitVec 32) (i : Nat) : byte (a >>> 16).toNat i = byte a.toNat (i + 2) := by
  rw [BitVec.toNat_ushiftRight, Nat.shiftRight_eq_div_pow, byte, digit, Nat.div_div_eq_div_mul, byte, digit,
    Nat.pow_add, Nat.mul_comm]

theorem byte_low (x : BitVec 64) {i : Nat} (inside : i < 4) : byte (x.setWidth 32).toNat i = byte x.toNat i := by
  rw [BitVec.toNat_setWidth, byte, digit, byte, digit]
  interval_cases i <;> omega

theorem byte_high (x : BitVec 64) {i : Nat} (inside : i < 4) :
    byte ((x >>> 32).setWidth 32).toNat i = byte x.toNat (i + 4) := by
  rw [BitVec.toNat_setWidth, BitVec.toNat_ushiftRight, Nat.shiftRight_eq_div_pow, byte, digit, byte, digit]
  have below := x.isLt
  interval_cases i <;> omega

/-- A few products fit in the sum. -/
theorem total_toNat {products : List (BitVec 16)} (few : products.length ≤ 2 ^ 16) :
    (total products).toNat = (products.map BitVec.toNat).sum := by
  have sums (sum : BitVec 32) (products : List (BitVec 16)) (room : sum.toNat + products.length * 2 ^ 16 ≤ 2 ^ 32) :
      (products.foldl (fun sum product => sum + product.setWidth 32) sum).toNat =
        sum.toNat + (products.map BitVec.toNat).sum := by
    induction products generalizing sum with
    | nil => simp
    | cons product rest ih =>
      have small := product.isLt
      rw [List.length_cons] at room
      have exact : (sum + product.setWidth 32).toNat = sum.toNat + product.toNat := by
        rw [BitVec.toNat_add, BitVec.toNat_setWidth, Nat.mod_eq_of_lt (small.trans (by decide)),
          Nat.mod_eq_of_lt (by omega)]
      rw [List.foldl_cons, ih _ (by rw [exact]; omega), exact, List.map_cons, List.sum_cons, Nat.add_assoc]
  rw [total, sums 0#32 products (by simp; omega), BitVec.toNat_zero, Nat.zero_add]

attribute
  [local simp] mul00 mul01 mul02 mul03 mul11 mul12 mul13 mul22 mul23 mul33 mulx0y0 mulx0y1 mulx0y2 mulx0y3 mulx0y4
  mulx0y5 mulx0y6 mulx0y7 mulx1y1 mulx1y2 mulx1y3 mulx1y4 mulx1y5 mulx1y6 mulx2y2 mulx2y3 mulx2y4
    mulx2y5 mulx3y3 mulx3y4
  mulx1y0 mulx2y0 mulx2y1 mulx3y0 mulx3y1 mulx3y2 mulx4y0 mulx4y1 mulx4y2 mulx4y3 mulx5y0 mulx5y1
    mulx5y2 mulx6y0 mulx6y1
  mulx7y0

/-- The halves of a number in eight bytes. -/
structure Halves (low high : BitVec 32) (bytes : Nat → Nat) : Prop where
  low : ∀ i < 4, byte low.toNat i = bytes i
  high : ∀ i < 4, byte high.toNat i = bytes (i + 4)

theorem halves (x : BitVec 64) : Halves (x.setWidth 32) ((x >>> 32).setWidth 32) (byte x.toNat) :=
  ⟨fun _ inside => byte_low x inside, fun _ inside => byte_high x inside⟩

/-- Each fragment is one column of the product. -/
theorem fragment_toNat {xl xh yl yh : BitVec 32} {x y : Nat → Nat} (ofX : Halves xl xh x)
    (ofY : Halves yl yh y) {k : Nat}
    (inside : k < 8) : (fragment xl xh yl yh k).toNat = column x y k := by
  interval_cases k
  all_goals
    rw [fragment, total_toNat (by simp)]
    simp [byteProduct_toNat, byte_ushiftRight, ofX.low, ofX.high, ofY.low, ofY.high, column,
      Finset.Nat.antidiagonal_succ,
      -BitVec.toNat_ushiftRight]
  all_goals ring

/-- The product modulo the width of the words. -/
theorem muldi3_eq_mul (x y : BitVec 64) : muldi3 x y = x * y := by
  have columns := value_column 256 8 (byte x.toNat) (byte y.toNat)
  rw [value_digit, value_digit, show 256 ^ 8 = 2 ^ 64 from rfl, Nat.mod_eq_of_lt x.isLt,
    Nat.mod_eq_of_lt y.isLt, Nat.ModEq]
    at columns
  refine BitVec.eq_of_toNat_eq ?_
  have fragments (k : Nat) (inside : k < 8) := fragment_toNat (halves x) (halves y) inside
  rw [muldi3]
  generalize fragment _ _ _ _ = p at *
  -- what the lower half carries is added to the upper one, which may lose its carries
  have lower :
    ((p 0).setWidth 64 + (p 1).setWidth 64 <<< 8 + (p 2).setWidth 64 <<< 16 + (p 3).setWidth 64 <<< 24).toNat =
      ((p 0).toNat + (p 1).toNat * 2 ^ 8 + (p 2).toNat * 2 ^ 16 + (p 3).toNat * 2 ^ 24) % 2 ^ 64 := by
    simp only [BitVec.toNat_add, BitVec.toNat_shiftLeft, BitVec.toNat_setWidth, Nat.shiftLeft_eq]
    omega
  have upper : (p 4 + p 5 <<< 8 + p 6 <<< 16 + p 7 <<< 24).toNat =
      ((p 4).toNat + (p 5).toNat * 2 ^ 8 + (p 6).toNat * 2 ^ 16 + (p 7).toNat * 2 ^ 24) % 2 ^ 32 := by
    simp only [BitVec.toNat_add, BitVec.toNat_shiftLeft, Nat.shiftLeft_eq]
    omega
  have whole : value 256 8 (column (byte x.toNat) (byte y.toNat)) =
      (p 0).toNat + (p 1).toNat * 2 ^ 8 + (p 2).toNat * 2 ^ 16 + (p 3).toNat * 2 ^ 24 +
        ((p 4).toNat + (p 5).toNat * 2 ^ 8 + (p 6).toNat * 2 ^ 16 + (p 7).toNat * 2 ^ 24) * 2 ^ 32 := by
    rw [value, Finset.sum_congr rfl fun k inside => by rw [← fragments k (Finset.mem_range.mp inside)]]
    simp only [Finset.sum_range_succ, Finset.sum_range_zero]
    ring
  rw [BitVec.toNat_mul, ← columns, whole, BitVec.toNat_add, BitVec.toNat_shiftLeft, BitVec.toNat_setWidth,
    lower, upper,
    Nat.shiftLeft_eq]
  omega

end Upmem.Mul64
