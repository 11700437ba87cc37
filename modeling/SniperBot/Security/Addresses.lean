import SniperBot.Basis.Edwards
import SniperBot.Basis.Powers
import Mathlib.Tactic.NormNum.Prime

/-!
# Addresses on the curve

Whether 32 bytes are a point of the Ed25519 curve (`_is_ed25519_curve_point`, `security.py`); the
owners of holder accounts that are no such points are program accounts. The check takes the root of
a quotient by one power and a correction, over the prime `2 ^ 255 - 19`.

`isEd25519CurvePoint_iff` says that it accepts the canonical encodings of the points and nothing
else.
-/

namespace SniperBot.Security

open Basis

/-! ## The field -/

/-- `_ED25519_P` -/
@[irreducible] def ed25519P : ℕ := 2 ^ 255 - 19

/-- `_ED25519_D` -/
def ed25519D : ℕ :=
  (-121665 * (powMod 121666 (ed25519P - 2) ed25519P : Int) % (ed25519P : Int)).toNat

/-- `_ED25519_SQRT_M1` -/
def ed25519SqrtM1 : ℕ := powMod 2 ((ed25519P - 1) / 4) ed25519P

/-- The greatest prime that divides the predecessor of `ed25519P`. -/
def predecessorFactor : ℕ :=
  74058212732561358302231226437062788676166966415465897661863160754340907

/-- The tests of the greater prime numbers. -/
theorem lucasTests :
    LucasTest 75445702479781427272750846543864801 7
        [2, 2, 2, 2, 2, 3, 3, 5, 5, 75707, 72106336199, 1919519569386763] ∧
      LucasTest predecessorFactor 2 [2, 3, 353, 57467, 132049, 1923133, 31757755568855353,
        75445702479781427272750846543864801] ∧
      LucasTest ed25519P 2 [2, 2, 3, 65147, predecessorFactor] := by
  decide +kernel

theorem prime_2773320623 : Nat.Prime 2773320623 := by
  have h : LucasTest 2773320623 5 [2, 2437, 569003] := by decide
  exact h.prime ⟨Nat.prime_two, by norm_num, by norm_num⟩

theorem prime_72106336199 : Nat.Prime 72106336199 := by
  have h : LucasTest 72106336199 7 [2, 13, 2773320623] := by decide
  exact h.prime ⟨Nat.prime_two, by norm_num, prime_2773320623⟩

theorem prime_1919519569386763 : Nat.Prime 1919519569386763 := by
  have h : LucasTest 1919519569386763 2 [2, 3, 7, 19, 47, 47, 127, 8574133] := by decide
  exact h.prime ⟨Nat.prime_two, Nat.prime_three, by norm_num, by norm_num, by norm_num,
    by norm_num, by norm_num, by norm_num⟩

theorem prime_31757755568855353 : Nat.Prime 31757755568855353 := by
  have h : LucasTest 31757755568855353 10 [2, 2, 2, 3, 31, 107, 223, 4153, 430751] := by
    decide
  exact h.prime ⟨Nat.prime_two, Nat.prime_two, Nat.prime_two, Nat.prime_three, by norm_num,
    by norm_num, by norm_num, by norm_num, by norm_num⟩

theorem prime_75445702479781427272750846543864801 :
    Nat.Prime 75445702479781427272750846543864801 :=
  lucasTests.1.prime ⟨Nat.prime_two, Nat.prime_two, Nat.prime_two, Nat.prime_two, Nat.prime_two,
    Nat.prime_three, Nat.prime_three, Nat.prime_five, Nat.prime_five, by norm_num,
    prime_72106336199, prime_1919519569386763⟩

theorem prime_predecessorFactor : Nat.Prime predecessorFactor :=
  lucasTests.2.1.prime ⟨Nat.prime_two, Nat.prime_three, by norm_num, by norm_num, by norm_num,
    by norm_num, prime_31757755568855353, prime_75445702479781427272750846543864801⟩

theorem prime_ed25519P : Nat.Prime ed25519P :=
  lucasTests.2.2.prime ⟨Nat.prime_two, Nat.prime_two, Nat.prime_three, by norm_num,
    prime_predecessorFactor⟩

instance : Fact ed25519P.Prime := ⟨prime_ed25519P⟩

/-! ## The check -/

/-- `int.from_bytes(value, "little")` -/
def littleEndian (value : List UInt8) : ℕ := Nat.ofDigits 256 (value.map UInt8.toNat)

/-- The root that the check tries: the candidate, or the candidate times the root of `-1`. -/
def triedRoot (xSquared : ℕ) : ℕ :=
  let x := powMod xSquared ((ed25519P + 3) / 8) ed25519P
  if x * x % ed25519P ≠ xSquared then x * ed25519SqrtM1 % ed25519P else x

/-- `_is_ed25519_curve_point` -/
def isEd25519CurvePoint (value : Vector UInt8 32) : Bool :=
  let y := littleEndian value.toList &&& ((1 <<< 255) - 1)
  let sign := value[31].toNat >>> 7
  if ed25519P ≤ y then false
  else
    let ySquared := y * y % ed25519P
    let denominator := (ed25519D * ySquared + 1) % ed25519P
    if denominator = 0 then false
    else
      let xSquared := (((ySquared : Int) - 1) * powMod denominator (ed25519P - 2) ed25519P %
        (ed25519P : Int)).toNat
      let x := triedRoot xSquared
      if x * x % ed25519P ≠ xSquared then false
      else !(x = 0 ∧ sign = 1 : Bool)

/-! ## Bytes -/

/-- The second coordinate of an encoding: its number without the top bit. -/
def secondCoordinate (value : Vector UInt8 32) : ℕ := littleEndian value.toList % 2 ^ 255

/-- The top bit. -/
def signBit (value : Vector UInt8 32) : ℕ := littleEndian value.toList / 2 ^ 255

theorem littleEndian_concat (first : List UInt8) (last : UInt8) :
    littleEndian (first ++ [last]) = littleEndian first + 256 ^ first.length * last.toNat := by
  rw [littleEndian, littleEndian, List.map_append, Nat.ofDigits_append, List.length_map]
  simp only [List.map_cons, List.map_nil, Nat.ofDigits_singleton]

theorem littleEndian_lt (value : List UInt8) : littleEndian value < 256 ^ value.length := by
  have h := Nat.ofDigits_lt_base_pow_length (b := 256) (l := value.map UInt8.toNat) (by decide)
    fun digit hdigit => by
      obtain ⟨byte, -, rfl⟩ := List.mem_map.mp hdigit
      exact byte.toNat_lt
  rwa [List.length_map] at h

/-- The sign is the top bit of the last byte. -/
theorem signBit_eq (value : Vector UInt8 32) : signBit value = value[31].toNat >>> 7 := by
  have hsplit : value.toList = value.toList.take 31 ++ [value[31]] := by
    have hlast : value[31] = value.toList[31] := (Vector.getElem_toList (by simp)).symm
    rw [hlast, List.take_append_getElem, List.take_of_length_le (by simp)]
  have hlow := littleEndian_lt (value.toList.take 31)
  have hlength : (value.toList.take 31).length = 31 := by simp
  rw [hlength] at hlow
  rw [signBit, hsplit, littleEndian_concat, hlength, Nat.shiftRight_eq_div_pow]
  have hpow : (2 : ℕ) ^ 255 = 256 ^ 31 * 2 ^ 7 := by norm_num
  rw [hpow, ← Nat.div_div_eq_div_mul, Nat.add_mul_div_left _ _ (by norm_num),
    Nat.div_eq_of_lt hlow, Nat.zero_add]

theorem signBit_lt (value : Vector UInt8 32) : signBit value < 2 := by
  have hlt := littleEndian_lt value.toList
  rw [Vector.length_toList] at hlt
  rw [signBit, Nat.div_lt_iff_lt_mul (by norm_num)]
  exact hlt.trans_eq (by norm_num)

theorem mask_eq (n : ℕ) : n &&& ((1 <<< 255) - 1) = n % 2 ^ 255 := by
  rw [Nat.one_shiftLeft, Nat.and_two_pow_sub_one_eq_mod]

/-! ## Residues -/

/-- The field. -/
abbrev Field25519 := ZMod ed25519P

/-- The coefficient of the curve. -/
def curveD : Field25519 := -121665 / 121666

theorem cast_toNat_emod (n : Int) :
    ((n % (ed25519P : Int)).toNat : Field25519) = (n : Field25519) := by
  have hpos : (ed25519P : Int) ≠ 0 := by norm_num [ed25519P]
  rw [← Int.cast_natCast, Int.toNat_of_nonneg (Int.emod_nonneg n hpos), ZMod.intCast_mod]

/-- Fermat's inverse of a residue. -/
theorem cast_inverse {n : ℕ} (h : (n : Field25519) ≠ 0) :
    ((powMod n (ed25519P - 2) ed25519P : ℕ) : Field25519) = (n : Field25519)⁻¹ := by
  rw [cast_powMod, pow_sub_two_eq_inv h]

theorem cast_ed25519D : (ed25519D : Field25519) = curveD := by
  have hne : ((121666 : ℕ) : Field25519) ≠ 0 := by
    rw [Ne, ZMod.natCast_eq_zero_iff]
    norm_num [ed25519P]
  rw [ed25519D, cast_toNat_emod, curveD, div_eq_mul_inv]
  push_cast
  rw [cast_inverse hne]
  push_cast
  rfl

theorem curveD_ne : curveD ≠ -1 := by
  have hne : ((ed25519D + 1 : ℕ) : Field25519) ≠ 0 := by
    rw [Ne, ZMod.natCast_eq_zero_iff]
    decide +kernel
  rw [Nat.cast_succ, cast_ed25519D] at hne
  exact fun h => hne (by rw [h, neg_add_cancel])

theorem sq_cast_ed25519SqrtM1 : (ed25519SqrtM1 : Field25519) ^ 2 = -1 := by
  have hzero : ((ed25519SqrtM1 ^ 2 + 1 : ℕ) : Field25519) = 0 := by
    rw [ZMod.natCast_eq_zero_iff]
    decide +kernel
  push_cast at hzero
  exact eq_neg_of_add_eq_zero_left hzero

/-- Residues are equal when their numbers are. -/
theorem mod_eq_iff {m n : ℕ} (hn : n < ed25519P) :
    m % ed25519P = n ↔ (m : Field25519) = (n : Field25519) := by
  rw [ZMod.natCast_eq_natCast_iff', Nat.mod_eq_of_lt hn]

theorem ed25519P_pos : 0 < ed25519P := prime_ed25519P.pos

theorem cast_eq_zero_iff {n : ℕ} (hn : n < ed25519P) : (n : Field25519) = 0 ↔ n = 0 := by
  rw [ZMod.natCast_eq_zero_iff]
  exact ⟨fun h => Nat.eq_zero_of_dvd_of_lt h hn, fun h => h ▸ dvd_zero _⟩

/-! ## The root -/

theorem triedRoot_lt (n : ℕ) : triedRoot n < ed25519P := by
  simp only [triedRoot]
  split
  · exact Nat.mod_lt _ ed25519P_pos
  · rw [powMod_eq]
    exact Nat.mod_lt _ ed25519P_pos

/-- The tried root is a root when there is one. -/
theorem triedRoot_sq_iff {n : ℕ} (hn : n < ed25519P) :
    triedRoot n * triedRoot n % ed25519P = n ↔ IsSquare (n : Field25519) := by
  have hmod : ed25519P % 8 = 5 := by norm_num [ed25519P]
  rw [isSquare_iff_candidate hmod sq_cast_ed25519SqrtM1, mod_eq_iff hn, ← cast_powMod]
  push_cast
  rw [← sq]
  simp only [triedRoot]
  split
  · rename_i hroot
    rw [Ne, mod_eq_iff hn, Nat.cast_mul, ← sq] at hroot
    rw [or_iff_right hroot, ZMod.natCast_mod, Nat.cast_mul]
  · rename_i hroot
    rw [Ne, not_not, mod_eq_iff hn, Nat.cast_mul, ← sq] at hroot
    exact iff_of_true hroot (.inl hroot)

/-- A root is zero when the number is. -/
theorem triedRoot_eq_zero_iff {n : ℕ} (hn : n < ed25519P)
    (hroot : triedRoot n * triedRoot n % ed25519P = n) : triedRoot n = 0 ↔ n = 0 := by
  rw [mod_eq_iff hn, Nat.cast_mul] at hroot
  rw [← cast_eq_zero_iff (triedRoot_lt n), ← cast_eq_zero_iff hn, ← hroot, mul_self_eq_zero]

/-! ## Accepted bytes -/

/-- The check accepts a second coordinate of a point, unless the first one is zero and the sign
bit is set. -/
theorem accepts_iff (value : Vector UInt8 32) :
    isEd25519CurvePoint value = true ↔
      secondCoordinate value < ed25519P ∧
      (∃ x : Field25519, OnCurve curveD x (secondCoordinate value)) ∧
      ¬ ((secondCoordinate value : Field25519) ^ 2 = 1 ∧ signBit value = 1) := by
  simp only [isEd25519CurvePoint, mask_eq, ← signBit_eq]
  rw [← secondCoordinate]
  generalize secondCoordinate value = y
  generalize signBit value = sign
  split
  · rename_i hle
    exact iff_of_false Bool.false_ne_true fun h => absurd h.1 (not_lt.mpr hle)
  rename_i hlt
  rw [and_iff_right (not_le.mp hlt)]
  have hdenominator : (((ed25519D * (y * y % ed25519P) + 1) % ed25519P : ℕ) : Field25519) =
      curveD * (y : Field25519) ^ 2 + 1 := by
    rw [ZMod.natCast_mod, Nat.cast_succ, Nat.cast_mul, ZMod.natCast_mod, Nat.cast_mul,
      cast_ed25519D, sq]
  have hzero_iff : (ed25519D * (y * y % ed25519P) + 1) % ed25519P = 0 ↔
      curveD * (y : Field25519) ^ 2 + 1 = 0 := by
    rw [← cast_eq_zero_iff (Nat.mod_lt _ ed25519P_pos), hdenominator]
  split
  · rename_i hzero
    rw [hzero_iff] at hzero
    exact iff_of_false Bool.false_ne_true fun ⟨⟨x, hx⟩, _⟩ => not_onCurve curveD_ne hzero hx
  rename_i hne
  rw [hzero_iff] at hne
  generalize hn : (((y * y % ed25519P : ℕ) - 1 : Int) * (powMod
    ((ed25519D * (y * y % ed25519P) + 1) % ed25519P) (ed25519P - 2) ed25519P : ℕ) %
      (ed25519P : Int)).toNat = n
  have hcast : (n : Field25519) =
      ((y : Field25519) ^ 2 - 1) * (curveD * (y : Field25519) ^ 2 + 1)⁻¹ := by
    rw [← hdenominator, ← cast_inverse (by rwa [hdenominator]), ← hn, cast_toNat_emod]
    push_cast
    rw [sq]
  have hnlt : n < ed25519P := by
    have hpos : (0 : Int) < ed25519P := Int.natCast_pos.mpr ed25519P_pos
    have := Int.emod_lt_of_pos (((y * y % ed25519P : ℕ) - 1 : Int) * (powMod
      ((ed25519D * (y * y % ed25519P) + 1) % ed25519P) (ed25519P - 2) ed25519P : ℕ)) hpos
    omega
  have hexists : (∃ x : Field25519, OnCurve curveD x y) ↔ IsSquare (n : Field25519) := by
    simp only [onCurve_iff hne, ← hcast, isSquare_iff_exists_sq, eq_comm]
  have hone : (y : Field25519) ^ 2 = 1 ↔ n = 0 := by
    rw [← cast_eq_zero_iff hnlt, hcast, mul_eq_zero, or_iff_left (inv_ne_zero hne), sub_eq_zero]
  rw [hexists, hone, ← triedRoot_sq_iff hnlt]
  split
  · rename_i hroot
    exact iff_of_false Bool.false_ne_true fun h => hroot h.1
  · rename_i hroot
    rw [Ne, not_not] at hroot
    rw [and_iff_right hroot, ← triedRoot_eq_zero_iff hnlt hroot]
    simp only [Bool.not_eq_true', decide_eq_false_iff_not]

/-! ## Points -/

/-- The only point with the second coordinate has first coordinate zero when the square of the
second one is one. -/
theorem only_zero_iff {y : Field25519} (h : ∃ x, OnCurve curveD x y) :
    (∀ x, OnCurve curveD x y → x = 0) ↔ y ^ 2 = 1 := by
  obtain ⟨x, hx⟩ := h
  constructor
  · intro honly
    exact onCurve_zero_iff.mp (honly x hx ▸ hx)
  · intro hone x' hx'
    have hne : curveD * y ^ 2 + 1 ≠ 0 := fun hzero => not_onCurve curveD_ne hzero hx
    rw [onCurve_iff hne, hone, sub_self, zero_mul] at hx'
    exact pow_eq_zero_iff two_ne_zero |>.mp hx'

/-- The canonical encoding of a point: the number of the second coordinate, with the parity of the
first one as its top bit. -/
def Encodes (value : Vector UInt8 32) (x y : Field25519) : Prop :=
  littleEndian value.toList = y.val + 2 ^ 255 * (x.val % 2)

theorem ed25519P_lt : ed25519P < 2 ^ 255 := by norm_num [ed25519P]

/-- The encodings of the points with a first coordinate, by their parts. -/
theorem encodes_iff (value : Vector UInt8 32) (x y : Field25519) :
    Encodes value x y ↔ secondCoordinate value = y.val ∧ signBit value = x.val % 2 := by
  have hy := (ZMod.val_lt y).trans ed25519P_lt
  rw [Encodes, secondCoordinate, signBit]
  omega

/-- The check accepts the second coordinates of points below the prime, unless the only point has
first coordinate zero and the sign bit is set. These are the canonical encodings of points. -/
theorem isEd25519CurvePoint_iff (value : Vector UInt8 32) :
    (isEd25519CurvePoint value = true ↔
      secondCoordinate value < ed25519P ∧
      (∃ x : Field25519, OnCurve curveD x (secondCoordinate value)) ∧
      ¬ ((∀ x : Field25519, OnCurve curveD x (secondCoordinate value) → x = 0) ∧
        signBit value = 1)) ∧
    (isEd25519CurvePoint value = true ↔
      ∃ x y : Field25519, OnCurve curveD x y ∧ Encodes value x y) := by
  rw [accepts_iff]
  constructor
  · refine and_congr_right fun _ => and_congr_right fun hpoint => ?_
    rw [only_zero_iff hpoint]
  · constructor
    · rintro ⟨hlt, ⟨x, hx⟩, hsign⟩
      have hy : (secondCoordinate value : Field25519).val = secondCoordinate value :=
        ZMod.val_natCast_of_lt hlt
      have hbit := signBit_lt value
      by_cases hparity : signBit value = x.val % 2
      · exact ⟨x, _, hx, (encodes_iff value _ _).mpr ⟨hy.symm, hparity⟩⟩
      · -- the other root has the other parity
        have hne : x ≠ 0 := by
          rintro rfl
          rw [ZMod.val_zero] at hparity
          exact hsign ⟨onCurve_zero_iff.mp hx, by omega⟩
        have hodd : ed25519P % 2 = 1 := by norm_num [ed25519P]
        have hother := val_neg_mod_two hodd hne
        exact ⟨-x, _, onCurve_neg.mpr hx, (encodes_iff value _ _).mpr ⟨hy.symm, by omega⟩⟩
    · rintro ⟨x, y, hx, hencodes⟩
      obtain ⟨hy, hsign⟩ := (encodes_iff value x y).mp hencodes
      have hcast : (secondCoordinate value : Field25519) = y := by
        rw [hy, ZMod.natCast_val, ZMod.cast_id]
      rw [hcast]
      refine ⟨hy ▸ ZMod.val_lt y, ⟨x, hx⟩, fun ⟨hone, hbit⟩ => ?_⟩
      rw [(only_zero_iff ⟨x, hx⟩).mpr hone x hx, ZMod.val_zero] at hsign
      omega

/-- The generator of the group has second coordinate 4/5 and even first coordinate. -/
example : isEd25519CurvePoint ((Vector.replicate 32 0x66).set 0 0x58) = true := by decide +kernel

/-! ## Owners -/

/-- `BURN_AND_SERVICE_ADDRESSES` -/
def burnAndServiceAddresses : List String :=
  ["11111111111111111111111111111111", "1nc1nerator11111111111111111111111111111111",
    "SysvarRent111111111111111111111111111111111"]

/-- `_BASE58_ALPHABET` -/
def base58Alphabet : List Char :=
  "123456789ABCDEFGHJKLMNPQRSTUVWXYZabcdefghijkmnopqrstuvwxyz".toList

/-- `_BASE58_VALUES` -/
def base58Value (character : Char) : Option ℕ := base58Alphabet.idxOf? character

/-- The bytes of a number, the greatest first; zero has none. -/
def bigEndianBytes (number : ℕ) : List UInt8 := ((Nat.digits 256 number).map UInt8.ofNat).reverse

/-- `_decode_solana_address` -/
def decodeSolanaAddress (value : String) : Option (Vector UInt8 32) := do
  if value = "" then none
  let number ← value.toList.foldlM (fun number character => do
    return number * 58 + (← base58Value character)) 0
  let leadingZeroes := (value.toList.takeWhile (· = '1')).length
  let decoded := List.replicate leadingZeroes 0 ++ bigEndianBytes number
  if h : decoded.length = 32 then some ⟨decoded.toArray, h⟩ else none

/-- `_is_program_or_burn_owner` -/
def isProgramOrBurnOwner : Option String → Bool
  | none => false
  | some owner =>
      if owner ∈ burnAndServiceAddresses then true
      else (decodeSolanaAddress owner).any fun decoded => !isEd25519CurvePoint decoded

end SniperBot.Security
