import Mathlib.Data.Int.Log
import Mathlib.Data.Rat.Floor
import Mathlib.Tactic.FieldSimp
import Mathlib.Tactic.Linarith
import Mathlib.Tactic.Positivity

/-! # Decimals held as numbers of finite precision

A number format reads a decimal as one of its numbers and prints a number as a
decimal. A sum is taken of the numbers and rounded once more; how far it is off
from the sum of the decimals is a matter of their size.
-/

namespace StockMarket.Rounding

/-- The nearest integer, an even one where two are as near. -/
def roundEven (x : ℚ) : ℤ :=
  if x - ⌊x⌋ < 1 / 2 then ⌊x⌋
  else if 1 / 2 < x - ⌊x⌋ then ⌊x⌋ + 1
  else if Even ⌊x⌋ then ⌊x⌋
  else ⌊x⌋ + 1

theorem abs_roundEven_sub_le (x : ℚ) : |roundEven x - x| ≤ 1 / 2 := by
  have hfloor := Int.floor_le x
  have hlt := Int.lt_floor_add_one x
  rw [roundEven, abs_le]
  split_ifs <;> push_cast <;> constructor <;> linarith

/-- The place of the last bit a double has for a number of this size: 53 bits
from the first one, and none below the least subnormal. -/
def lastBit (x : ℚ) : ℤ := if x = 0 then -1074 else max (Int.log 2 |x| - 52) (-1074)

/-- The double nearest to a number within their range, the even one of two. -/
def double (x : ℚ) : ℚ := roundEven (x / 2 ^ lastBit x) * 2 ^ lastBit x

theorem abs_double_sub_le (x : ℚ) : |double x - x| ≤ 2 ^ lastBit x / 2 := by
  have hbit : (0 : ℚ) < 2 ^ lastBit x := zpow_pos zero_lt_two _
  have hscaled : double x - x =
      (roundEven (x / 2 ^ lastBit x) - x / 2 ^ lastBit x) * 2 ^ lastBit x := by
    rw [double, sub_mul, div_mul_cancel₀ x hbit.ne']
  rw [hscaled, abs_mul, abs_of_pos hbit]
  calc |(roundEven (x / 2 ^ lastBit x) : ℚ) - x / 2 ^ lastBit x| * 2 ^ lastBit x
      ≤ 1 / 2 * 2 ^ lastBit x := mul_le_mul_of_nonneg_right (abs_roundEven_sub_le _) hbit.le
    _ = 2 ^ lastBit x / 2 := by ring

theorem lastBit_le {x : ℚ} {k : ℤ} (hk : -1021 ≤ k) (hx : |x| < 2 ^ k) : lastBit x ≤ k - 53 := by
  rw [lastBit]
  split
  · omega
  · rename_i hne
    have hlog : Int.log 2 |x| < k :=
      (Int.lt_zpow_iff_log_lt one_lt_two (abs_pos.mpr hne)).mp (by exact_mod_cast hx)
    omega

/-- Below a power of two the error is at most half the last of its 53 bits. -/
theorem abs_double_sub_le_of_lt {x : ℚ} {k : ℤ} (hk : -1021 ≤ k) (hx : |x| < 2 ^ k) :
    |double x - x| ≤ 2 ^ (k - 54) := by
  have hstep : (2 : ℚ) ^ (k - 53) = 2 ^ (k - 54) * 2 := by
    rw [← zpow_add_one₀ two_ne_zero]
    congr 1
    ring
  calc |double x - x| ≤ 2 ^ lastBit x / 2 := abs_double_sub_le x
    _ ≤ 2 ^ (k - 53) / 2 := div_le_div_of_nonneg_right
        (zpow_le_zpow_right₀ one_le_two (lastBit_le hk hx)) zero_le_two
    _ = 2 ^ (k - 54) := by rw [hstep, mul_div_cancel_right₀ _ two_ne_zero]

/-- The decimal of the fewest digits that is read as the number, of two such the
nearer one. A number that needs more than 17 digits is no double. -/
def shortest (x : ℚ) : ℚ :=
  let candidates := (List.range 17).flatMap fun digits =>
    let place : ℚ := 10 ^ (Int.log 10 |x| - digits)
    [roundEven (x / place), ⌊x / place⌋, ⌊x / place⌋ + 1].map fun units => units * place
  (candidates.find? fun decimal => decide (double decimal = x)).getD x

/-- How a decimal is read as a number, and a number printed as a decimal. -/
structure Format where
  read : ℚ → ℚ
  print : ℚ → ℚ

namespace Format

/-- Every decimal is a number of its own. -/
def exact : Format := ⟨fun x => x, fun x => x⟩

def double : Format := ⟨Rounding.double, shortest⟩

def sum (format : Format) (x y : ℚ) : ℚ := format.read (format.read x + format.read y)

@[simp] theorem exact_read (x : ℚ) : exact.read x = x := rfl

@[simp] theorem exact_print (x : ℚ) : exact.print x = x := rfl

@[simp] theorem exact_sum (x y : ℚ) : exact.sum x y = x + y := rfl

/-- Reading both decimals and rounding their sum costs three bits in all. -/
theorem abs_double_sum_sub_le {x y : ℚ} {k : ℤ} (hk : -1021 ≤ k) (hx : |x| < 2 ^ k)
    (hy : |y| < 2 ^ k) : |double.sum x y - (x + y)| ≤ 6 * 2 ^ (k - 54) := by
  have hpow : (2 : ℚ) ^ (k + 2 - 54) = 4 * 2 ^ (k - 54) := by
    rw [show k + 2 - 54 = (k - 54) + 2 by ring, zpow_add₀ two_ne_zero]
    norm_num
    ring
  have hsmall : (2 : ℚ) ^ (k - 54) ≤ 2 ^ k := zpow_le_zpow_right₀ one_le_two (by omega)
  have hx' := abs_double_sub_le_of_lt hk hx
  have hy' := abs_double_sub_le_of_lt hk hy
  have hread : |Rounding.double x + Rounding.double y| < 2 ^ (k + 2) := by
    rw [zpow_add₀ two_ne_zero]
    rw [abs_lt] at hx hy ⊢
    rw [abs_le] at hx' hy'
    constructor <;> norm_num <;> linarith
  have hsum : |double.sum x y - (Rounding.double x + Rounding.double y)| ≤ 4 * 2 ^ (k - 54) :=
    hpow ▸ abs_double_sub_le_of_lt (by omega) hread
  rw [abs_le] at hx' hy' hsum ⊢
  constructor <;> linarith

end Format

example : Format.double.sum (1 / 10) (2 / 10) ≠ 3 / 10 ∧
    shortest (Format.double.sum (1 / 10) (2 / 10)) = 30000000000000004 / 100000000000000000 := by
  decide +kernel

end StockMarket.Rounding
