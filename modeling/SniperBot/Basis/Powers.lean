import Mathlib.Data.List.Prime
import Mathlib.NumberTheory.LucasPrimality

/-!
# Powers modulo a number

Powers by repeated squaring, fast enough to be evaluated at numbers of hundreds of bits, and the
test of Lucas by such powers: a number is prime when some power sequence modulo it first returns
to one after as many steps as the number has predecessors.
-/

namespace Basis

/-- The loop of repeated squaring: `acc * a ^ e` for an exponent of at most `bits` bits. -/
def powLoop (m : ℕ) : ℕ → ℕ → ℕ → ℕ → ℕ
  | 0, acc, _, _ => acc % m
  | bits + 1, acc, a, e =>
      powLoop m bits (if e % 2 = 1 then acc * a % m else acc) (a * a % m) (e / 2)

/-- `pow(a, e, m)` -/
def powMod (a e m : ℕ) : ℕ := powLoop m (e.log2 + 1) 1 a e

theorem powLoop_modEq (m : ℕ) (bits acc a e : ℕ) (h : e < 2 ^ bits) :
    powLoop m bits acc a e ≡ acc * a ^ e [MOD m] := by
  induction bits generalizing acc a e with
  | zero =>
      obtain rfl : e = 0 := Nat.lt_one_iff.mp h
      rw [pow_zero, mul_one]
      exact Nat.mod_modEq acc m
  | succ bits ih =>
      have hhalf : e / 2 < 2 ^ bits := by
        rw [pow_succ] at h
        omega
      refine (ih _ _ _ hhalf).trans ?_
      have hsquare : (a * a % m) ^ (e / 2) ≡ a ^ (2 * (e / 2)) [MOD m] := by
        rw [pow_mul, sq]
        exact (Nat.mod_modEq _ _).pow _
      split
      · rename_i hodd
        calc acc * a % m * (a * a % m) ^ (e / 2)
            ≡ acc * a * a ^ (2 * (e / 2)) [MOD m] := (Nat.mod_modEq _ _).mul hsquare
          _ = acc * a ^ (2 * (e / 2) + 1) := by rw [pow_succ]; ring
          _ = acc * a ^ e := by rw [show 2 * (e / 2) + 1 = e by omega]
      · rename_i heven
        have hexponent : 2 * (e / 2) = e := by omega
        rw [hexponent] at hsquare
        exact hsquare.mul_left acc

theorem powLoop_lt {m : ℕ} (hm : 0 < m) (bits acc a e : ℕ) : powLoop m bits acc a e < m := by
  induction bits generalizing acc a e with
  | zero => exact Nat.mod_lt _ hm
  | succ bits ih => exact ih _ _ _

theorem powMod_eq (a e m : ℕ) : powMod a e m = a ^ e % m := by
  have hmod : powMod a e m ≡ a ^ e [MOD m] := by
    have h := powLoop_modEq m (e.log2 + 1) 1 a e Nat.lt_log2_self
    rwa [one_mul] at h
  rcases Nat.eq_zero_or_pos m with rfl | hm
  · rw [Nat.mod_zero]
    exact Nat.modEq_zero_iff.mp hmod
  · exact (Nat.mod_eq_of_lt (powLoop_lt hm _ _ _ _)).symm.trans hmod

/-- The power in the ring of the residues. -/
theorem cast_powMod (a e m : ℕ) : ((powMod a e m : ℕ) : ZMod m) = (a : ZMod m) ^ e := by
  rw [powMod_eq, ZMod.natCast_mod, Nat.cast_pow]

/-! ## Lucas's test -/

/-- The powers of `a` that the test looks at, for the predecessor of `p` and its factors. -/
def LucasTest (p a : ℕ) (factors : List ℕ) : Prop :=
  1 < p ∧ factors.prod + 1 = p ∧ powMod a (p - 1) p = 1 ∧
    ∀ q ∈ factors, powMod a ((p - 1) / q) p ≠ 1

instance (p a : ℕ) (factors : List ℕ) : Decidable (LucasTest p a factors) :=
  inferInstanceAs (Decidable (_ ∧ _))

theorem LucasTest.prime {p a : ℕ} {factors : List ℕ} (h : LucasTest p a factors)
    (hprimes : factors.Forall Nat.Prime) : p.Prime := by
  rw [List.forall_iff_forall_mem] at hprimes
  obtain ⟨hp, hproduct, hone, hproper⟩ := h
  have hpow (e : ℕ) : (a : ZMod p) ^ e = 1 ↔ powMod a e p = 1 := by
    rw [← Nat.cast_pow, ← Nat.cast_one, ZMod.natCast_eq_natCast_iff', Nat.mod_eq_of_lt hp,
      powMod_eq]
  refine lucas_primality p a ((hpow _).mpr hone) fun q hq hdvd => ?_
  -- a prime that divides the predecessor is one of its factors
  have hmem : q ∈ factors := by
    rw [← hproduct, Nat.add_sub_cancel] at hdvd
    obtain ⟨r, hr, hqr⟩ := (Prime.dvd_prod_iff hq.prime).mp hdvd
    rwa [(Nat.prime_dvd_prime_iff_eq hq (hprimes r hr)).mp hqr]
  exact fun h => hproper q hmem ((hpow _).mp h)

end Basis
