import Mathlib.Algebra.Order.Floor.Ring
import Mathlib.Data.Int.Log
import Mathlib.Data.Rat.Floor
import Mathlib.Tactic.Linarith
import Mathlib.Tactic.NormNum
import Mathlib.Tactic.Positivity
import Mathlib.Tactic.Push

/-!
# Rounding to significant digits

What a decimal context of precision `p` makes of an exact result: the nearest number of `p`
significant digits, an even last digit between two of them. Rounding keeps the order and the powers
of ten, and moves a result by half a unit of its last digit at most.

Two parts of one may be rounded up by enough to exceed one together. Their sum in the same context
does not (`significant_add_le_one`).
-/

namespace Basis

/-- The nearest integer, the even one of two. -/
def roundEven (x : ℚ) : ℤ :=
  if x - ⌊x⌋ < 1 / 2 then ⌊x⌋
  else if 1 / 2 < x - ⌊x⌋ then ⌊x⌋ + 1
  else ⌊x⌋ + ⌊x⌋ % 2

/-- The unit of the last of `p` significant digits. -/
def lastUnit (p : ℕ) (x : ℚ) : ℚ := 10 ^ (Int.log 10 |x| + 1 - p)

/-- The number of `p` significant digits. -/
def significant (p : ℕ) (x : ℚ) : ℚ :=
  if x = 0 then 0 else roundEven (x / lastUnit p x) * lastUnit p x

/-! ## Integers -/

theorem roundEven_intCast (n : ℤ) : roundEven n = n := by
  have hlt : (n : ℚ) - ⌊(n : ℚ)⌋ < 1 / 2 := by
    rw [Int.floor_intCast, sub_self]
    norm_num
  rw [roundEven, if_pos hlt, Int.floor_intCast]

theorem floor_le_roundEven (x : ℚ) : ⌊x⌋ ≤ roundEven x := by
  unfold roundEven
  split_ifs <;> omega

theorem roundEven_le (x : ℚ) : roundEven x ≤ ⌊x⌋ + 1 := by
  unfold roundEven
  split_ifs <;> omega

theorem roundEven_error (x : ℚ) : |(roundEven x : ℚ) - x| ≤ 1 / 2 := by
  have hfrom := Int.floor_le x
  have hto := Int.lt_floor_add_one x
  have hparity : ((⌊x⌋ % 2 : ℤ) : ℚ) = 0 ∨ ((⌊x⌋ % 2 : ℤ) : ℚ) = 1 := by
    exact_mod_cast Int.emod_two_eq_zero_or_one ⌊x⌋
  rw [abs_le]
  unfold roundEven
  split_ifs
  · constructor <;> linarith
  · push_cast
    constructor <;> linarith
  · rw [Int.cast_add]
    rcases hparity with hparity | hparity <;> rw [hparity] <;> constructor <;> linarith

theorem roundEven_mono {x y : ℚ} (h : x ≤ y) : roundEven x ≤ roundEven y := by
  rcases (Int.floor_mono h).lt_or_eq with hlt | heq
  · exact (roundEven_le x).trans (hlt.trans_le (floor_le_roundEven y))
  · unfold roundEven
    rw [heq]
    split_ifs <;> first | omega | linarith

/-! ## Multiples of a unit -/

/-- The greatest multiple of the unit that is no further from zero. -/
def towardZero (unit x : ℚ) : ℚ := (if 0 ≤ x then ⌊x / unit⌋ else ⌈x / unit⌉) * unit

/-- The nearest multiple of the unit, the even one of two. -/
def nearest (unit x : ℚ) : ℚ := roundEven (x / unit) * unit

section Multiples

variable {unit : ℚ} (hunit : 0 < unit) {x y : ℚ}

include hunit

theorem towardZero_le (hx : 0 ≤ x) : towardZero unit x ≤ x := by
  rw [towardZero, if_pos hx, ← le_div_iff₀ hunit]
  exact Int.floor_le _

theorem towardZero_nonneg (hx : 0 ≤ x) : 0 ≤ towardZero unit x := by
  rw [towardZero, if_pos hx]
  exact mul_nonneg (by exact_mod_cast Int.floor_nonneg.mpr (div_nonneg hx hunit.le)) hunit.le

theorem towardZero_mono (hx : 0 ≤ x) (h : x ≤ y) : towardZero unit x ≤ towardZero unit y := by
  rw [towardZero, towardZero, if_pos hx, if_pos (hx.trans h)]
  have hfloor := Int.floor_mono (div_le_div_of_nonneg_right h hunit.le)
  exact mul_le_mul_of_nonneg_right (by exact_mod_cast hfloor) hunit.le

theorem nearest_mono (h : x ≤ y) : nearest unit x ≤ nearest unit y := by
  have hround := roundEven_mono (div_le_div_of_nonneg_right h hunit.le)
  exact mul_le_mul_of_nonneg_right (by exact_mod_cast hround) hunit.le

/-- A multiple of the unit is its own nearest one. -/
theorem nearest_mul (n : ℤ) : nearest unit (n * unit) = n * unit := by
  rw [nearest, mul_div_cancel_right₀ _ hunit.ne', roundEven_intCast]

end Multiples

/-! ## Digits -/

section Digits

variable {p : ℕ} {x y : ℚ}

theorem significant_zero (p : ℕ) : significant p 0 = 0 := if_pos rfl

theorem lastUnit_pos (p : ℕ) (x : ℚ) : 0 < lastUnit p x := zpow_pos (by norm_num) _

theorem significant_of_pos (hx : 0 < x) :
    significant p x = roundEven (x / lastUnit p x) * lastUnit p x := if_neg hx.ne'

/-- The powers of ten around a number, in units of its last digit. -/
theorem pow_mul_lastUnit (hp : 0 < p) (x : ℚ) :
    ((10 ^ (p - 1) : ℤ) : ℚ) * lastUnit p x = 10 ^ Int.log 10 |x| ∧
      ((10 ^ p : ℤ) : ℚ) * lastUnit p x = 10 ^ (Int.log 10 |x| + 1) := by
  have hten : (10 : ℚ) ≠ 0 := by norm_num
  unfold lastUnit
  push_cast
  rw [← zpow_natCast, ← zpow_natCast, ← zpow_add₀ hten, ← zpow_add₀ hten]
  constructor <;> congr 1 <;> omega

theorem significant_ge (hp : 0 < p) (hx : 0 < x) : (10 : ℚ) ^ Int.log 10 x ≤ significant p x := by
  have hlow := (pow_mul_lastUnit hp x).1
  have hle : ((10 ^ (p - 1) : ℤ) : ℚ) ≤ x / lastUnit p x := by
    rw [le_div_iff₀ (lastUnit_pos p x), hlow, abs_of_pos hx]
    exact_mod_cast Int.zpow_log_le_self (by norm_num) hx
  have hround := roundEven_mono hle
  rw [roundEven_intCast] at hround
  rw [abs_of_pos hx] at hlow
  rw [significant_of_pos hx, ← hlow]
  exact mul_le_mul_of_nonneg_right (by exact_mod_cast hround) (lastUnit_pos p x).le

theorem significant_le (hp : 0 < p) (hx : 0 < x) :
    significant p x ≤ (10 : ℚ) ^ (Int.log 10 x + 1) := by
  have hhigh := (pow_mul_lastUnit hp x).2
  have hle : x / lastUnit p x ≤ ((10 ^ p : ℤ) : ℚ) := by
    rw [div_le_iff₀ (lastUnit_pos p x), hhigh, abs_of_pos hx]
    exact_mod_cast (Int.lt_zpow_succ_log_self (by norm_num) x).le
  have hround := roundEven_mono hle
  rw [roundEven_intCast] at hround
  rw [abs_of_pos hx] at hhigh
  rw [significant_of_pos hx, ← hhigh]
  exact mul_le_mul_of_nonneg_right (by exact_mod_cast hround) (lastUnit_pos p x).le

theorem significant_nonneg (hp : 0 < p) (hx : 0 ≤ x) : 0 ≤ significant p x := by
  rcases hx.eq_or_lt with rfl | hpos
  · exact (significant_zero p).ge
  · exact (zpow_nonneg (by norm_num) _).trans (significant_ge hp hpos)

/-- Rounding keeps the order. -/
theorem significant_mono (hp : 0 < p) (hx : 0 ≤ x) (h : x ≤ y) :
    significant p x ≤ significant p y := by
  rcases hx.eq_or_lt with rfl | hpos
  · rw [significant_zero]
    exact significant_nonneg hp h
  have hpos' := hpos.trans_le h
  rcases (Int.log_mono_right (b := 10) hpos h).lt_or_eq with hlt | heq
  · -- a power of ten lies between them
    calc significant p x ≤ 10 ^ (Int.log 10 x + 1) := significant_le hp hpos
      _ ≤ 10 ^ Int.log 10 y := zpow_le_zpow_right₀ (by norm_num) hlt
      _ ≤ significant p y := significant_ge hp hpos'
  · have hunit : lastUnit p x = lastUnit p y := by
      rw [lastUnit, lastUnit, abs_of_pos hpos, abs_of_pos hpos', heq]
    rw [significant_of_pos hpos, significant_of_pos hpos', hunit]
    refine mul_le_mul_of_nonneg_right ?_ (lastUnit_pos p y).le
    exact_mod_cast roundEven_mono (div_le_div_of_nonneg_right h (lastUnit_pos p y).le)

theorem significant_one (hp : 0 < p) : significant p 1 = 1 := by
  have hunit : (1 : ℚ) / lastUnit p 1 = ((10 ^ (p - 1) : ℤ) : ℚ) := by
    rw [div_eq_iff (lastUnit_pos p 1).ne', (pow_mul_lastUnit hp 1).1, abs_one, Int.log_one_right,
      zpow_zero]
  rw [significant_of_pos one_pos, hunit, roundEven_intCast, (pow_mul_lastUnit hp 1).1, abs_one,
    Int.log_one_right, zpow_zero]

theorem significant_error (hx : 0 < x) : |significant p x - x| ≤ lastUnit p x / 2 := by
  have hunit := lastUnit_pos p x
  have herror := mul_le_mul_of_nonneg_right (roundEven_error (x / lastUnit p x)) hunit.le
  have hscaled : significant p x - x =
      ((roundEven (x / lastUnit p x) : ℚ) - x / lastUnit p x) * lastUnit p x := by
    rw [significant_of_pos hx, sub_mul, div_mul_cancel₀ _ hunit.ne']
  rw [hscaled, abs_mul, abs_of_pos hunit]
  linarith

/-- A part of one is moved by less than half a unit of the last digit after the point. -/
theorem significant_le_add (hx : 0 ≤ x) (hlt : x < 1) :
    significant p x ≤ x + 10 ^ (-p : ℤ) / 2 := by
  have hten : (0 : ℚ) < 10 ^ (-p : ℤ) := zpow_pos (by norm_num) _
  rcases hx.eq_or_lt with rfl | hpos
  · rw [significant_zero]
    linarith
  have hlog : Int.log 10 x < 0 := (Int.lt_zpow_iff_log_lt (by norm_num) hpos).mp (by
    rw [zpow_zero]
    exact hlt)
  have hunit : lastUnit p x ≤ 10 ^ (-p : ℤ) := by
    rw [lastUnit, abs_of_pos hpos]
    exact zpow_le_zpow_right₀ (by norm_num) (by omega)
  have herror := (abs_le.mp (significant_error (p := p) hpos)).2
  linarith

/-- Less than a unit of the last digit above one is rounded away. -/
theorem significant_one_add (hp : 0 < p) : significant p (1 + 10 ^ (-p : ℤ)) = 1 := by
  have hten : (0 : ℚ) < 10 ^ (-p : ℤ) := zpow_pos (by norm_num) _
  have hle : (10 : ℚ) ^ (-p : ℤ) ≤ 10 ^ (0 : ℤ) := zpow_le_zpow_right₀ (by norm_num) (by omega)
  rw [zpow_zero] at hle
  have hpos : (0 : ℚ) < 1 + 10 ^ (-p : ℤ) := by linarith
  have hlog : Int.log 10 (1 + (10 : ℚ) ^ (-p : ℤ)) = 0 := by
    have hfrom : 0 ≤ Int.log 10 (1 + (10 : ℚ) ^ (-p : ℤ)) :=
      (Int.zpow_le_iff_le_log (by norm_num) hpos).mp (by
        rw [zpow_zero]
        linarith)
    have hto : Int.log 10 (1 + (10 : ℚ) ^ (-p : ℤ)) < 1 :=
      (Int.lt_zpow_iff_log_lt (by norm_num) hpos).mp (by
        rw [zpow_one]
        push_cast
        linarith)
    omega
  have hunit : lastUnit p (1 + 10 ^ (-p : ℤ)) = 10 ^ (1 - p : ℤ) := by
    rw [lastUnit, abs_of_pos hpos, hlog, zero_add]
  have hpow := (pow_mul_lastUnit hp (1 + 10 ^ (-p : ℤ))).1
  rw [abs_of_pos hpos, hlog, zpow_zero, hunit] at hpow
  have hfine : (10 : ℚ) ^ (-p : ℤ) = 1 / 10 * 10 ^ (1 - p : ℤ) := by
    rw [sub_eq_neg_add, zpow_add₀ (by norm_num), zpow_one]
    ring
  have hquotient : (1 + 10 ^ (-p : ℤ)) / (10 : ℚ) ^ (1 - p : ℤ) =
      ((10 ^ (p - 1) : ℤ) : ℚ) + 1 / 10 := by
    rw [div_eq_iff (zpow_pos (by norm_num) _).ne', add_mul, hpow, ← hfine]
  have hround : roundEven (((10 ^ (p - 1) : ℤ) : ℚ) + 1 / 10) = 10 ^ (p - 1) := by
    have hfloor : ⌊((10 ^ (p - 1) : ℤ) : ℚ) + 1 / 10⌋ = 10 ^ (p - 1) := by
      rw [Int.floor_intCast_add]
      norm_num
    rw [roundEven, hfloor, add_sub_cancel_left, if_pos (by norm_num)]
  rw [significant_of_pos hpos, hunit, hquotient, hround, hpow]

/-- Two parts of one do not exceed one together, once their sum is rounded as well. -/
theorem significant_add_le_one (hp : 0 < p) (hx : 0 ≤ x) (hy : 0 ≤ y) (h : x + y ≤ 1) :
    significant p (significant p x + significant p y) ≤ 1 := by
  have hsum : significant p x + significant p y ≤ 1 + 10 ^ (-p : ℤ) := by
    have hten : (0 : ℚ) < 10 ^ (-p : ℤ) := zpow_pos (by norm_num) _
    rcases (show x ≤ 1 by linarith).lt_or_eq with hltx | rfl
    · rcases (show y ≤ 1 by linarith).lt_or_eq with hlty | rfl
      · have := significant_le_add hx hltx (p := p)
        have := significant_le_add hy hlty (p := p)
        linarith
      · obtain rfl : x = 0 := by linarith
        rw [significant_zero, significant_one hp]
        linarith
    · obtain rfl : y = 0 := by linarith
      rw [significant_zero, significant_one hp]
      linarith
  calc significant p (significant p x + significant p y)
      ≤ significant p (1 + 10 ^ (-p : ℤ)) :=
        significant_mono hp (add_nonneg (significant_nonneg hp hx) (significant_nonneg hp hy)) hsum
    _ = 1 := significant_one_add hp

end Digits

end Basis
