import SniperBot.Basis.Decimal

/-!
# Decimal arithmetic in a context

The operations of a context that keeps `p` digits: the exact result, rounded half to even when it
has more digits (`fix`). What rounding changes is `roundingError`, so `value_add` writes a rounded
sum as the exact one and an error.

Numbers that differ only in zeros at their end have the same value. A function that does not see
such zeros is a function of the value (`eq_of_value_eq`). Rounding and division are of that kind.
-/

namespace Basis

namespace Decimal

variable {p : Nat} {a b d : Decimal}

/-! ## Zeros at the end -/

/-- The same number with one more zero. -/
def scaled (d : Decimal) : Decimal :=
  { d with
    coefficient := 10 * d.coefficient
    exponent := d.exponent - 1 }

theorem signed_scaled (d : Decimal) : d.scaled.signed = 10 * d.signed := by
  rw [signed, signed, scaled]
  dsimp only
  split <;> push_cast <;> ring

theorem value_scaled (d : Decimal) : d.scaled.value = d.value := by
  rw [value, value, signed_scaled, scaled]
  dsimp only
  rw [zpow_sub_one₀ (by norm_num)]
  push_cast
  ring

theorem value_iterate_scaled (k : Nat) (d : Decimal) : (scaled^[k] d).value = d.value := by
  induction k generalizing d with
  | zero => rfl
  | succ k ih => rw [Function.iterate_succ_apply, ih, value_scaled]

theorem exponent_iterate_scaled (k : Nat) (d : Decimal) :
    (scaled^[k] d).exponent = d.exponent - k := by
  induction k generalizing d with
  | zero => exact (sub_zero _).symm
  | succ k ih =>
      rw [Function.iterate_succ_apply, ih, scaled]
      push_cast
      ring

/-- A number other than zero is determined by its value and its exponent. -/
theorem eq_of_value_exponent (hvalue : a.value = b.value) (hexponent : a.exponent = b.exponent)
    (hzero : a.coefficient ≠ 0) : a = b := by
  have hpow : (10 : ℚ) ^ b.exponent ≠ 0 := zpow_ne_zero _ (by norm_num)
  rw [value, value, hexponent] at hvalue
  have hsigned : a.signed = b.signed := by exact_mod_cast mul_right_cancel₀ hpow hvalue
  obtain ⟨na, ca, ea⟩ := a
  obtain ⟨nb, cb, eb⟩ := b
  dsimp only [signed] at hsigned hexponent hzero
  subst hexponent
  cases na <;> cases nb <;> simp only [Bool.false_eq_true, if_true, if_false] at hsigned
  · rw [show ca = cb by omega]
  · omega
  · omega
  · rw [show ca = cb by omega]

/-- A function that does not see zeros at the end is a function of the value. -/
theorem eq_of_value_eq {α : Type*} {f : Decimal → α} (zero : α)
    (hzero : ∀ d, d.coefficient = 0 → f d = zero)
    (hscaled : ∀ d, d.coefficient ≠ 0 → f d.scaled = f d) (h : a.value = b.value) : f a = f b := by
  have hiterate : ∀ k d, d.coefficient ≠ 0 → f (scaled^[k] d) = f d := by
    intro k
    induction k with
    | zero => exact fun _ _ => rfl
    | succ k ih =>
        intro d hd
        have hd' : d.scaled.coefficient ≠ 0 := mul_ne_zero (by decide) hd
        rw [Function.iterate_succ_apply, ih _ hd', hscaled d hd]
  have hone : ∀ a b, a.coefficient ≠ 0 → a.value = b.value → b.exponent ≤ a.exponent →
      f a = f b := by
    intro a b ha hab hle
    obtain ⟨k, hk⟩ := Int.eq_ofNat_of_zero_le (sub_nonneg.mpr hle)
    have hb : b.coefficient ≠ 0 := fun hb =>
      ha (value_eq_zero_iff.mp (hab.trans (value_eq_zero_iff.mpr hb)))
    have heq : b = scaled^[k] a :=
      eq_of_value_exponent (hab.symm.trans (value_iterate_scaled k a).symm)
        (by rw [exponent_iterate_scaled]; omega) hb
    rw [heq, hiterate k a ha]
  by_cases ha : a.coefficient = 0
  · have hb : b.coefficient = 0 := value_eq_zero_iff.mp (h.symm.trans (value_eq_zero_iff.mpr ha))
    rw [hzero a ha, hzero b hb]
  · have hb : b.coefficient ≠ 0 := fun hb =>
      ha (value_eq_zero_iff.mp (h.trans (value_eq_zero_iff.mpr hb)))
    rcases le_total b.exponent a.exponent with hle | hle
    · exact hone a b ha h hle
    · exact (hone b a hb h.symm hle).symm

/-! ## Rounding -/

/-- `n / 10 ^ k`, rounded half to even. -/
def halfEven (n k : Nat) : Nat :=
  let below := n / 10 ^ k
  let rest := n % 10 ^ k
  if 2 * rest < 10 ^ k then below
  else if 10 ^ k < 2 * rest then below + 1
  else below + below % 2

/-- The number of digits. -/
def size (n : Nat) : Nat := (Nat.toDigits 10 n).length

/-- The number without its last `k` digits. -/
def dropped (k : Nat) (d : Decimal) : Decimal :=
  { d with
    coefficient := halfEven d.coefficient k
    exponent := d.exponent + k }

/-- The number after a carry to one digit more than `p`. -/
def carried (p : Nat) (d : Decimal) : Decimal :=
  if d.coefficient < 10 ^ p then d
  else
    { d with
      coefficient := d.coefficient / 10
      exponent := d.exponent + 1 }

/-- `_fix`: at most `p` digits. -/
def fix (p : Nat) (d : Decimal) : Decimal :=
  if size d.coefficient ≤ p then d
  else carried p (dropped (size d.coefficient - p) d)

theorem size_le_iff (hp : 0 < p) {n : Nat} : size n ≤ p ↔ n < 10 ^ p :=
  Nat.length_toDigits_le_iff (by decide) hp

theorem size_mul_ten {n : Nat} (h : n ≠ 0) : size (10 * n) = size n + 1 := by
  have hdigits := Nat.toDigits_append_toDigits (by decide : 1 < 10) (Nat.pos_of_ne_zero h)
    (by decide : 0 < 10)
  rw [size, ← Nat.add_zero (10 * n), ← hdigits, List.length_append]
  rfl

theorem halfEven_zero (n : Nat) : halfEven n 0 = n := by
  simp [halfEven, Nat.mod_one]

theorem halfEven_mul_ten (n k : Nat) : halfEven (10 * n) (k + 1) = halfEven n k := by
  have hpow : (10 : Nat) ^ (k + 1) = 10 * 10 ^ k := by rw [pow_succ, mul_comm]
  simp only [halfEven, hpow]
  rw [Nat.mul_div_mul_left _ _ (by decide), Nat.mul_mod_mul_left]
  have hlt : 2 * (10 * (n % 10 ^ k)) < 10 * 10 ^ k ↔ 2 * (n % 10 ^ k) < 10 ^ k := by omega
  have hgt : 10 * 10 ^ k < 2 * (10 * (n % 10 ^ k)) ↔ 10 ^ k < 2 * (n % 10 ^ k) := by omega
  simp only [hlt, hgt]

theorem halfEven_le {n k : Nat} (h : n < 10 ^ (p + k)) : halfEven n k ≤ 10 ^ p := by
  have hbelow : n / 10 ^ k < 10 ^ p := by
    rw [Nat.div_lt_iff_lt_mul (by positivity), ← pow_add]
    exact h
  simp only [halfEven]
  split
  · omega
  · split <;> omega

/-- A rounded number has at most `p` digits. -/
theorem fix_lt (hp : 0 < p) (d : Decimal) : (fix p d).coefficient < 10 ^ p := by
  rw [fix]
  split
  · next h => exact (size_le_iff hp).mp h
  · next h =>
    have hn : d.coefficient < 10 ^ (p + (size d.coefficient - p)) := by
      rw [Nat.add_sub_cancel' (by omega)]
      exact (size_le_iff (by omega)).mp le_rfl
    have hle : (dropped (size d.coefficient - p) d).coefficient ≤ 10 ^ p := halfEven_le hn
    rw [carried]
    split
    · assumption
    · have hpos : 0 < 10 ^ p := by positivity
      exact lt_of_lt_of_le (Nat.div_lt_self (by omega) (by decide)) hle

theorem fix_of_lt (hp : 0 < p) (h : d.coefficient < 10 ^ p) : fix p d = d := by
  rw [fix, if_pos ((size_le_iff hp).mpr h)]

theorem dropped_scaled (k : Nat) (d : Decimal) : dropped (k + 1) d.scaled = dropped k d := by
  have hexponent : d.exponent - 1 + ((k + 1 : Nat) : Int) = d.exponent + k := by
    push_cast
    ring
  simp only [dropped, scaled, halfEven_mul_ten, hexponent]

theorem dropped_zero (d : Decimal) : dropped 0 d = d := by
  simp only [dropped, halfEven_zero, Nat.cast_zero, add_zero]

theorem value_fix_scaled (hp : 0 < p) (d : Decimal) (h : d.coefficient ≠ 0) :
    (fix p d.scaled).value = (fix p d).value := by
  have hsize : size d.scaled.coefficient = size d.coefficient + 1 := size_mul_ten h
  rcases lt_trichotomy (size d.coefficient) p with hless | heq | hmore
  · rw [fix, fix, if_pos (by omega), if_pos (by omega), value_scaled]
  · have hk : size d.scaled.coefficient - p = 0 + 1 := by omega
    rw [fix, fix, if_neg (by omega), if_pos heq.le, hk, dropped_scaled, dropped_zero, carried,
      if_pos ((size_le_iff hp).mp heq.le)]
  · have hk : size d.scaled.coefficient - p = size d.coefficient - p + 1 := by omega
    rw [fix, fix, if_neg (by omega), if_neg (by omega), hk, dropped_scaled]

/-- Rounding depends on the value only. -/
theorem value_fix_congr (hp : 0 < p) (h : a.value = b.value) :
    (fix p a).value = (fix p b).value := by
  refine eq_of_value_eq (f := fun d => (fix p d).value) 0 (fun d hd => ?_) (value_fix_scaled hp) h
  rw [fix_of_lt hp (by rw [hd]; positivity)]
  exact value_eq_zero_iff.mpr hd

theorem value_pos_iff : 0 < d.value ↔ d.negative = false ∧ d.coefficient ≠ 0 := by
  have hpow : (0 : ℚ) < 10 ^ d.exponent := zpow_pos (by norm_num) _
  rw [value, mul_pos_iff_of_pos_right hpow, Int.cast_pos, signed]
  cases d.negative with
  | true =>
      simp only [if_true, Bool.true_eq_false, false_and, iff_false]
      omega
  | false =>
      simp only [Bool.false_eq_true, if_false, true_and]
      omega

theorem fix_negative (p : Nat) (d : Decimal) : (fix p d).negative = d.negative := by
  rw [fix]
  split
  · rfl
  · rw [carried]
    split <;> rfl

/-- Rounding does not make a number zero. -/
theorem fix_coefficient_ne_zero (hp : 0 < p) (h : d.coefficient ≠ 0) :
    (fix p d).coefficient ≠ 0 := by
  rw [fix]
  split
  · exact h
  · next hsize =>
    have hlarge : 10 ^ (size d.coefficient - 1) ≤ d.coefficient := by
      rcases Nat.eq_zero_or_pos (size d.coefficient - 1) with hzero | hpos
      · rw [hzero, pow_zero]
        omega
      · exact le_of_not_gt fun hlt => absurd ((size_le_iff hpos).mpr hlt) (by omega)
    have hpow : size d.coefficient - 1 = p - 1 + (size d.coefficient - p) := by omega
    have hbelow : 10 ^ (p - 1) ≤ d.coefficient / 10 ^ (size d.coefficient - p) := by
      rw [Nat.le_div_iff_mul_le (by positivity), ← pow_add, ← hpow]
      exact hlarge
    have hone : 1 ≤ 10 ^ (p - 1) := Nat.one_le_pow _ _ (by decide)
    have hhalf : d.coefficient / 10 ^ (size d.coefficient - p) ≤
        halfEven d.coefficient (size d.coefficient - p) := by
      simp only [halfEven]
      split
      · omega
      · split <;> omega
    rw [carried]
    split
    · exact Nat.one_le_iff_ne_zero.mp (hone.trans (hbelow.trans hhalf))
    · next hcarry =>
      have hten : 10 ≤ (dropped (size d.coefficient - p) d).coefficient := by
        have hpow' : 10 ^ 1 ≤ 10 ^ p := Nat.pow_le_pow_right (by decide) hp
        omega
      dsimp only
      omega

theorem value_fix_pos_iff (hp : 0 < p) : 0 < (fix p d).value ↔ 0 < d.value := by
  rw [value_pos_iff, value_pos_iff, fix_negative]
  refine and_congr_right fun _ => ⟨fun h hzero => h ?_, fix_coefficient_ne_zero hp⟩
  rw [fix_of_lt hp (by rw [hzero]; positivity)]
  exact hzero

/-- What rounding adds to the value. -/
def roundingError (p : Nat) (d : Decimal) : ℚ := (fix p d).value - d.value

theorem roundingError_eq_zero (hp : 0 < p) (h : d.coefficient < 10 ^ p) :
    roundingError p d = 0 := by
  rw [roundingError, fix_of_lt hp h, sub_self]

/-! ## Sums and products -/

/-- The coefficient of a number written with another exponent, not above its own. -/
def signedAt (d : Decimal) (e : Int) : Int := d.signed * 10 ^ (d.exponent - e).toNat

/-- The exact sum, written with the smaller exponent. -/
def exactSum (a b : Decimal) : Decimal :=
  let e := min a.exponent b.exponent
  let total := a.signedAt e + b.signedAt e
  { negative := if total = 0 then a.negative && b.negative else total < 0
    coefficient := total.natAbs
    exponent := e }

def add (p : Nat) (a b : Decimal) : Decimal := fix p (exactSum a b)

/-- `copy_negate` -/
def negated (d : Decimal) : Decimal := { d with negative := !d.negative }

def sub (p : Nat) (a b : Decimal) : Decimal := add p a b.negated

/-- `-d` -/
def neg (p : Nat) (d : Decimal) : Decimal :=
  fix p (if d.coefficient = 0 then { d with negative := false } else d.negated)

def mul (p : Nat) (a b : Decimal) : Decimal :=
  fix p
    { negative := a.negative ^^ b.negative
      coefficient := a.coefficient * b.coefficient
      exponent := a.exponent + b.exponent }

/-- `sum(items, start)` -/
def sum (p : Nat) (start : Decimal) (items : List Decimal) : Decimal := items.foldl (add p) start

/-- `d.quantize(Decimal((0, (1,), e)))`; `none` when it raises. -/
def quantize (p : Nat) (e : Int) (d : Decimal) : Option Decimal :=
  let coefficient :=
    if e ≤ d.exponent then d.coefficient * 10 ^ (d.exponent - e).toNat
    else halfEven d.coefficient (e - d.exponent).toNat
  if size coefficient ≤ p then some ⟨d.negative, coefficient, e⟩ else none

theorem value_signedAt {e : Int} (h : e ≤ d.exponent) : (d.signedAt e : ℚ) * 10 ^ e = d.value := by
  have hexponent : d.exponent = (d.exponent - e).toNat + e := by omega
  rw [value, signedAt]
  conv_rhs => rw [hexponent, zpow_add₀ (by norm_num), zpow_natCast]
  push_cast
  ring

theorem signed_exactSum (a b : Decimal) : (exactSum a b).signed =
    a.signedAt (min a.exponent b.exponent) + b.signedAt (min a.exponent b.exponent) := by
  simp only [exactSum, signed]
  split
  · next h => simp only [h, Int.natAbs_zero, Nat.cast_zero, neg_zero, ite_self]
  · split
    · next h =>
      have hneg := of_decide_eq_true h
      omega
    · next h =>
      have hnonneg := mt decide_eq_true h
      omega

theorem value_exactSum (a b : Decimal) : (exactSum a b).value = a.value + b.value := by
  rw [value, signed_exactSum]
  push_cast
  rw [add_mul, show (exactSum a b).exponent = min a.exponent b.exponent from rfl,
    value_signedAt (min_le_left _ _), value_signedAt (min_le_right _ _)]

/-- A rounded sum is the exact one and an error. -/
theorem value_add (p : Nat) (a b : Decimal) :
    (add p a b).value = a.value + b.value + roundingError p (exactSum a b) := by
  rw [roundingError, value_exactSum, add, add_sub_cancel]

theorem value_negated (d : Decimal) : d.negated.value = -d.value := by
  rw [value, value, negated, signed, signed]
  cases d.negative <;> simp

theorem value_sub (p : Nat) (a b : Decimal) :
    (sub p a b).value = a.value - b.value + roundingError p (exactSum a b.negated) := by
  rw [sub, value_add, value_negated, sub_eq_add_neg]

/-- A sum depends on the values only. -/
theorem value_add_congr (hp : 0 < p) {a a' b b' : Decimal} (ha : a.value = a'.value)
    (hb : b.value = b'.value) : (add p a b).value = (add p a' b').value :=
  value_fix_congr hp (by rw [value_exactSum, value_exactSum, ha, hb])

theorem value_sub_congr (hp : 0 < p) {a a' b b' : Decimal} (ha : a.value = a'.value)
    (hb : b.value = b'.value) : (sub p a b).value = (sub p a' b').value :=
  value_add_congr hp ha (by rw [value_negated, value_negated, hb])

/-- A product depends on the exact one only. -/
theorem value_mul_congr (hp : 0 < p) {a a' b b' : Decimal}
    (h : a.value * b.value = a'.value * b'.value) :
    (mul p a b).value = (mul p a' b').value := by
  have hexact : ∀ c d : Decimal, value
      { negative := c.negative ^^ d.negative
        coefficient := c.coefficient * d.coefficient
        exponent := c.exponent + d.exponent } = c.value * d.value := by
    intro c d
    have hsigned : (if (c.negative ^^ d.negative) = true then
        -((c.coefficient * d.coefficient : Nat) : Int)
        else ((c.coefficient * d.coefficient : Nat) : Int)) = c.signed * d.signed := by
      rw [signed, signed]
      cases c.negative <;> cases d.negative <;> simp
    rw [value, value, value, signed, hsigned, zpow_add₀ (by norm_num)]
    push_cast
    ring
  exact value_fix_congr hp (by rw [hexact, hexact, h])

theorem value_neg (hp : 0 < p) (h : d.coefficient < 10 ^ p) : (neg p d).value = -d.value := by
  rw [neg]
  split
  · next hzero =>
    rw [fix_of_lt hp (by exact h), value_eq_zero_iff.mpr hzero, neg_zero]
    exact value_eq_zero_iff.mpr hzero
  · rw [fix_of_lt hp (by exact h), value_negated]

/-- The errors of a sum, one for each addition. -/
def sumError (p : Nat) : Decimal → List Decimal → ℚ
  | _, [] => 0
  | total, item :: items =>
      roundingError p (exactSum total item) + sumError p (add p total item) items

theorem value_sum (p : Nat) (start : Decimal) (items : List Decimal) :
    (sum p start items).value = start.value + (items.map value).sum + sumError p start items := by
  induction items generalizing start with
  | nil => simp [sum, sumError]
  | cons item items ih =>
      have htail := ih (add p start item)
      rw [value_add] at htail
      rw [List.map_cons, List.sum_cons, sumError]
      exact htail.trans (by ring)

/-- No addition of a sum rounds. -/
def SumFits (p : Nat) : Decimal → List Decimal → Prop
  | _, [] => True
  | total, item :: items =>
      (exactSum total item).coefficient < 10 ^ p ∧ SumFits p (add p total item) items

theorem sumError_eq_zero (hp : 0 < p) {start : Decimal} {items : List Decimal}
    (h : SumFits p start items) : sumError p start items = 0 := by
  induction items generalizing start with
  | nil => rfl
  | cons item items ih => rw [sumError, roundingError_eq_zero hp h.1, ih h.2, add_zero]

theorem sum_lt (hp : 0 < p) {start : Decimal} (h : start.coefficient < 10 ^ p)
    (items : List Decimal) : (sum p start items).coefficient < 10 ^ p := by
  induction items generalizing start with
  | nil => exact h
  | cons item items ih => exact ih (fix_lt hp _)

/-! ## Quotients -/

/-- `c` without zeros at its end, as many as `k` at most, and its exponent. -/
def stripped : Nat → Nat → Int → Nat × Int
  | 0, c, e => (c, e)
  | k + 1, c, e => if c % 10 = 0 then stripped k (c / 10) (e + 1) else (c, e)

/-- The digits of a quotient, with a last digit that is not rounded wrongly, and whether they are
exact. -/
def quotientDigits (numerator denominator : Nat) : Nat × Bool :=
  let digits := numerator / denominator
  let exact := numerator % denominator = 0
  (if exact ∨ digits % 5 ≠ 0 then digits else digits + 1, exact)

/-- By how many digits a quotient is shifted. -/
def quotientShift (p : Nat) (a b : Decimal) : Int :=
  size b.coefficient - size a.coefficient + p + 1

/-- The digits of a quotient, whether they are exact, and their exponent. -/
def quotient (p : Nat) (a b : Decimal) : (Nat × Bool) × Int :=
  let shift := quotientShift p a b
  (quotientDigits (a.coefficient * 10 ^ shift.toNat) (b.coefficient * 10 ^ (-shift).toNat),
    a.exponent - b.exponent - shift)

/-- The quotient by a number other than zero. -/
def div (p : Nat) (a b : Decimal) : Decimal :=
  let negative := a.negative ^^ b.negative
  let ideal := a.exponent - b.exponent
  if a.coefficient = 0 then fix p ⟨negative, 0, ideal⟩
  else
    let ((digits, exact), e) := quotient p a b
    if exact then
      let (digits, e) := stripped (ideal - e).toNat digits e
      fix p ⟨negative, digits, e⟩
    else fix p ⟨negative, digits, e⟩

theorem value_stripped (negative : Bool) (k c : Nat) (e : Int) :
    value ⟨negative, (stripped k c e).1, (stripped k c e).2⟩ = value ⟨negative, c, e⟩ := by
  induction k generalizing c e with
  | zero => rfl
  | succ k ih =>
      rw [stripped]
      split
      · next h =>
        have hscaled : scaled ⟨negative, c / 10, e + 1⟩ = ⟨negative, c, e⟩ := by
          simp only [scaled, add_sub_cancel_right, mk.injEq, true_and, and_true]
          omega
        rw [ih, ← hscaled, value_scaled]
      · rfl

theorem value_div (hp : 0 < p) (a b : Decimal) : (div p a b).value =
    if a.coefficient = 0 then 0
    else (fix p ⟨a.negative ^^ b.negative, (quotient p a b).1.1, (quotient p a b).2⟩).value := by
  rw [div]
  dsimp only
  split
  · rw [fix_of_lt hp (by positivity)]
    exact value_eq_zero_iff.mpr rfl
  · split
    · exact value_fix_congr hp (value_stripped ..)
    · rfl

theorem quotientDigits_mul_ten (n m : Nat) :
    quotientDigits (10 * n) (10 * m) = quotientDigits n m := by
  have hzero : 10 * (n % m) = 0 ↔ n % m = 0 := by omega
  simp only [quotientDigits, Nat.mul_div_mul_left _ _ (by decide : 0 < 10), Nat.mul_mod_mul_left,
    hzero]

theorem quotient_scaled (h : a.coefficient ≠ 0) : quotient p a.scaled b = quotient p a b := by
  have hshift : quotientShift p a.scaled b = quotientShift p a b - 1 := by
    have hsize : size a.scaled.coefficient = size a.coefficient + 1 := size_mul_ten h
    rw [quotientShift, quotientShift, hsize]
    push_cast
    ring
  have hexponent : a.exponent - 1 - b.exponent - (quotientShift p a b - 1) =
      a.exponent - b.exponent - quotientShift p a b := by ring
  simp only [quotient, hshift, show a.scaled.coefficient = 10 * a.coefficient from rfl,
    show a.scaled.exponent = a.exponent - 1 from rfl, hexponent]
  rcases le_or_gt (quotientShift p a b) 0 with hle | hpos
  · have hnum : (quotientShift p a b - 1).toNat = 0 ∧ (quotientShift p a b).toNat = 0 := by omega
    have hden : (-(quotientShift p a b - 1)).toNat = (-quotientShift p a b).toNat + 1 := by omega
    have hpow : b.coefficient * 10 ^ ((-quotientShift p a b).toNat + 1) =
        10 * (b.coefficient * 10 ^ (-quotientShift p a b).toNat) := by ring
    rw [hnum.1, hnum.2, hden, hpow, pow_zero, mul_one, mul_one, quotientDigits_mul_ten]
  · have hnum : (quotientShift p a b).toNat = (quotientShift p a b - 1).toNat + 1 := by omega
    have hden : (-(quotientShift p a b - 1)).toNat = 0 ∧ (-quotientShift p a b).toNat = 0 := by
      omega
    have hpow : a.coefficient * 10 ^ ((quotientShift p a b - 1).toNat + 1) =
        10 * a.coefficient * 10 ^ (quotientShift p a b - 1).toNat := by ring
    rw [hden.1, hden.2, hnum, hpow]

/-- A quotient depends on the value of the dividend only. -/
theorem value_div_congr (hp : 0 < p) {a a' : Decimal} (h : a.value = a'.value) (b : Decimal) :
    (div p a b).value = (div p a' b).value := by
  refine eq_of_value_eq (f := fun d => (div p d b).value) 0 (fun d hd => ?_) (fun d hd => ?_) h
  · rw [value_div hp, if_pos hd]
  · have hd' : d.scaled.coefficient ≠ 0 := mul_ne_zero (by decide) hd
    rw [value_div hp, value_div hp, if_neg hd, if_neg hd', quotient_scaled hd]
    rfl

example : (div 28 (ofNat 1) (ofNat 3)).text = "0.3333333333333333333333333333" := by decide +kernel

example : (div 28 (ofNat 2) (ofNat 3)).text = "0.6666666666666666666666666667" := by decide +kernel

example : (div 28 (ofNat 1) (ofNat 4)).text = "0.25" := by decide +kernel

end Decimal

end Basis
