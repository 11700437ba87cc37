import SniperBot.Basis.Rounding
import Mathlib.Algebra.Order.Ring.WithTop

/-!
# Binary64

The numbers of binary64 that are not negative, with infinity on top: rounding to 53 significant bits,
or to the least subnormal unit, half to even, and the sums that repeated additions give. Whole numbers
up to `2 ^ 53` are exact, and so are their sums.
-/

namespace Basis

/-- The unit of the last place. -/
def binaryUnit (x : ℚ) : ℚ := 2 ^ max (Int.log 2 |x| - 52) (-1074)

/-- The nearest number of binary64; from `2 ^ 1024` on there is none. -/
def round64 (x : ℚ) : WithTop ℚ :=
  if 2 ^ 1024 ≤ nearest (binaryUnit x) x then ⊤ else nearest (binaryUnit x) x

def add64 : WithTop ℚ → WithTop ℚ → WithTop ℚ
  | some x, some y => round64 (x + y)
  | _, _ => ⊤

/-- As many times the same number, added one after another to zero. -/
def sum64 (x : WithTop ℚ) : ℕ → WithTop ℚ
  | 0 => 0
  | n + 1 => add64 (sum64 x n) x

theorem binaryUnit_pos (x : ℚ) : 0 < binaryUnit x := zpow_pos (by norm_num) _

/-- A multiple of its own unit is exact. -/
theorem round64_eq {x : ℚ} {n : ℤ} (h : x = n * binaryUnit x) (hlt : x < 2 ^ 1024) :
    round64 x = x := by
  have hnearest := nearest_mul (binaryUnit_pos x) n
  rw [← h] at hnearest
  rw [round64, hnearest, if_neg hlt.not_ge]

theorem binaryUnit_natCast (n : ℕ) : binaryUnit n = 2 ^ ((Nat.log 2 n : ℤ) - 52) := by
  rw [binaryUnit, Nat.abs_cast, Int.log_natCast, max_eq_left (by omega)]

theorem round64_natCast {n : ℕ} (h : n ≤ 2 ^ 53) : round64 n = ((n : ℚ) : WithTop ℚ) := by
  have hlt : (n : ℚ) < 2 ^ 1024 :=
    calc (n : ℚ) ≤ 2 ^ 53 := by exact_mod_cast h
      _ < 2 ^ 1024 := pow_lt_pow_right₀ (by norm_num) (by norm_num)
  rcases h.lt_or_eq with hsmall | rfl
  · have hlog : Nat.log 2 n ≤ 52 := by
      rcases Nat.eq_zero_or_pos n with rfl | hpos
      · simp
      · exact Nat.le_of_lt_succ ((Nat.log_lt_iff_lt_pow (by norm_num) hpos.ne').mpr hsmall)
    refine round64_eq (n := (n * 2 ^ (52 - Nat.log 2 n) : ℕ)) ?_ hlt
    rw [binaryUnit_natCast, Int.cast_natCast, Nat.cast_mul, Nat.cast_pow, mul_assoc]
    have hunit : ((2 : ℕ) : ℚ) ^ (52 - Nat.log 2 n) * 2 ^ ((Nat.log 2 n : ℤ) - 52) = 1 := by
      rw [Nat.cast_ofNat, ← zpow_natCast, ← zpow_add₀ (by norm_num), Nat.cast_sub hlog]
      norm_num
    rw [hunit, mul_one]
  · refine round64_eq (n := 2 ^ 52) ?_ hlt
    rw [binaryUnit_natCast, Nat.log_pow (by norm_num)]
    norm_num

/-- Sums of a whole number are exact as long as they are no greater than `2 ^ 53`. -/
theorem sum64_natCast {m n : ℕ} (h : n * m ≤ 2 ^ 53) :
    sum64 ((m : ℚ) : WithTop ℚ) n = (((n * m : ℕ) : ℚ) : WithTop ℚ) := by
  induction n with
  | zero => simp [sum64]
  | succ n ih =>
    have hless : n * m ≤ 2 ^ 53 := (Nat.mul_le_mul_right m n.le_succ).trans h
    rw [sum64, ih hless]
    change round64 ((n * m : ℕ) + (m : ℚ)) = _
    rw [← Nat.cast_add, ← Nat.succ_mul, round64_natCast h]

/-- Nothing adds up to nothing. -/
theorem sum64_zero (n : ℕ) : sum64 0 n = 0 := by
  have h := sum64_natCast (m := 0) (n := n) (by omega)
  simpa using h

end Basis
