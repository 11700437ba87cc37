import Mathlib.NumberTheory.LegendreSymbol.Basic
import Mathlib.Tactic.LinearCombination

/-!
# Points of a twisted Edwards curve

Inverses and square roots modulo a prime as powers, the roots for primes that are 5 modulo 8, and
the curve `-x² + y² = 1 + d x² y²`: a second coordinate belongs to a point when the quotient
`(y² - 1) / (d y² + 1)` is a square.
-/

namespace Basis

section Powers

variable {p : ℕ} [Fact p.Prime]

/-- Fermat's inverse. -/
theorem pow_sub_two_eq_inv {a : ZMod p} (ha : a ≠ 0) : a ^ (p - 2) = a⁻¹ := by
  have hp : p - 1 = p - 2 + 1 := by
    have := (Fact.out : p.Prime).two_le
    omega
  have hone := ZMod.pow_card_sub_one_eq_one ha
  rw [hp, pow_succ] at hone
  exact eq_inv_of_mul_eq_one_left hone

/-- The candidate of a square is its root or the root of its negative. -/
theorem candidate_sq (hp : p % 8 = 5) {u : ZMod p} (h : IsSquare u) :
    (u ^ ((p + 3) / 8)) ^ 2 = u ∨ (u ^ ((p + 3) / 8)) ^ 2 = -u := by
  obtain ⟨z, rfl⟩ := h
  by_cases hz : z = 0
  · subst hz
    have hpos : (p + 3) / 8 ≠ 0 := by omega
    exact .inl (by rw [zero_mul, zero_pow hpos, zero_pow two_ne_zero])
  -- the square of the candidate is `z² * z ^ ((p - 1) / 2)`
  have hsquare : ((z * z) ^ ((p + 3) / 8)) ^ 2 = z * z * z ^ (p / 2) := by
    rw [← sq, ← pow_mul, ← pow_mul, ← pow_add]
    congr 1
    omega
  rw [hsquare]
  rcases ZMod.pow_div_two_eq_neg_one_or_one p hz with hone | hone
  · exact .inl (by rw [hone, mul_one])
  · exact .inr (by rw [hone, mul_neg_one])

/-- A number has a root when the candidate, or the candidate times a root of `-1`, is one. -/
theorem isSquare_iff_candidate (hp : p % 8 = 5) {i : ZMod p} (hi : i ^ 2 = -1) (u : ZMod p) :
    IsSquare u ↔ (u ^ ((p + 3) / 8)) ^ 2 = u ∨ (u ^ ((p + 3) / 8) * i) ^ 2 = u := by
  constructor
  · intro h
    refine (candidate_sq hp h).imp_right fun hneg => ?_
    rw [mul_pow, hneg, hi, neg_mul_neg, mul_one]
  · rintro (h | h)
    · exact ⟨_, by rw [← sq, h]⟩
    · exact ⟨_, by rw [← sq, h]⟩

/-- Of two opposite residues other than zero exactly one is odd. -/
theorem val_neg_mod_two {x : ZMod p} (hodd : p % 2 = 1) (hx : x ≠ 0) :
    (-x).val % 2 = 1 - x.val % 2 := by
  have : NeZero x := ⟨hx⟩
  have hlt := ZMod.val_lt x
  rw [ZMod.val_neg_of_ne_zero]
  omega

end Powers

/-! ## The curve -/

section Curve

variable {F : Type*} [Field F] {d x y : F}

/-- The points of the curve. -/
def OnCurve (d x y : F) : Prop := -x ^ 2 + y ^ 2 = 1 + d * x ^ 2 * y ^ 2

theorem onCurve_neg : OnCurve d (-x) y ↔ OnCurve d x y := by rw [OnCurve, OnCurve, neg_sq]

theorem onCurve_zero_iff : OnCurve d 0 y ↔ y ^ 2 = 1 := by
  rw [OnCurve, sq (0 : F), mul_zero, neg_zero, zero_add, mul_zero, zero_mul, add_zero]

theorem onCurve_iff (h : d * y ^ 2 + 1 ≠ 0) :
    OnCurve d x y ↔ x ^ 2 = (y ^ 2 - 1) * (d * y ^ 2 + 1)⁻¹ := by
  rw [eq_mul_inv_iff_mul_eq₀ h, OnCurve]
  constructor
  · intro hcurve
    linear_combination -hcurve
  · intro hroot
    linear_combination -hroot

/-- No point has a second coordinate for which the quotient is not defined. -/
theorem not_onCurve (hd : d ≠ -1) (h : d * y ^ 2 + 1 = 0) : ¬ OnCurve d x y := by
  intro hcurve
  have hone : y ^ 2 = 1 := by
    rw [OnCurve] at hcurve
    linear_combination hcurve + x ^ 2 * h
  rw [hone, mul_one] at h
  exact hd (eq_neg_of_add_eq_zero_left h)

end Curve

end Basis
