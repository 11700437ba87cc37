import Mathlib.Algebra.Order.Field.Rat
import Mathlib.Tactic.Ring
import Mathlib.Tactic.Linarith

/-!
# Decimal numbers

A finite decimal is a sign, a coefficient and an exponent. `text` is its scientific string: digits
with a point, and an exponent if the point alone would need too many zeros. Whatever the form,
the digits after the point and the exponent give the exponent back (`parts_exponent`), so `read`
recovers the number from its text (`read_text`).
-/

namespace Basis

structure Decimal where
  negative : Bool := false
  coefficient : Nat
  exponent : Int := 0
  deriving DecidableEq, Repr

namespace Decimal

variable {d : Decimal}

def signed (d : Decimal) : Int := if d.negative then -d.coefficient else d.coefficient

def value (d : Decimal) : ℚ := d.signed * 10 ^ d.exponent

/-- The decimal of a whole number. -/
def ofNat (n : Nat) : Decimal := { coefficient := n }

def ofInt (n : Int) : Decimal := { negative := n < 0, coefficient := n.natAbs }

@[simp] theorem signed_ofInt (n : Int) : (ofInt n).signed = n := by
  by_cases h : n < 0
  · simp only [signed, ofInt, h, decide_true, if_true]
    omega
  · simp only [signed, ofInt, h, decide_false, Bool.false_eq_true, if_false]
    omega

@[simp] theorem value_ofInt (n : Int) : (ofInt n).value = n := by
  rw [value, signed_ofInt]
  exact mul_one _

@[simp] theorem value_ofNat (n : Nat) : (ofNat n).value = n := by
  rw [value]
  exact mul_one _

theorem value_eq_zero_iff : d.value = 0 ↔ d.coefficient = 0 := by
  have hpow : (10 : ℚ) ^ d.exponent ≠ 0 := zpow_ne_zero _ (by norm_num)
  rw [value, mul_eq_zero, or_iff_left hpow, Int.cast_eq_zero, signed]
  split <;> omega

/-! ## Text -/

def digits (d : Decimal) : List Char := Nat.toDigits 10 d.coefficient

/-- The number of digits left of the point, if the text has no exponent. -/
def leftDigits (d : Decimal) : Int := d.exponent + d.digits.length

/-- Where the point stands among the digits. -/
def dotPlace (d : Decimal) : Int :=
  if d.exponent ≤ 0 ∧ -6 < d.leftDigits then d.leftDigits else 1

/-- The digits before and after the point. -/
def parts (d : Decimal) : List Char × List Char :=
  if d.dotPlace ≤ 0 then (['0'], List.replicate (-d.dotPlace).toNat '0' ++ d.digits)
  else if d.digits.length ≤ d.dotPlace then
    (d.digits ++ List.replicate (d.dotPlace - d.digits.length).toNat '0', [])
  else (d.digits.take d.dotPlace.toNat, d.digits.drop d.dotPlace.toNat)

def exponentText (e : Int) : List Char :=
  if e = 0 then []
  else 'E' :: (if e < 0 then '-' else '+') :: Nat.toDigits 10 e.natAbs

def fractionText (fraction : List Char) : List Char :=
  if fraction = [] then [] else '.' :: fraction

def characters (d : Decimal) : List Char :=
  (if d.negative then ['-'] else []) ++ d.parts.1 ++ fractionText d.parts.2 ++
    exponentText (d.leftDigits - d.dotPlace)

/-- `str(d)` -/
def text (d : Decimal) : String := String.ofList d.characters

theorem length_digits_pos (d : Decimal) : 0 < d.digits.length := Nat.length_toDigits_pos

theorem isDigit_of_mem_digits {c : Char} (h : c ∈ d.digits) : c.isDigit = true :=
  Nat.isDigit_of_mem_toDigits (by decide) (by decide) h

/-- The three forms of the digits. -/
theorem parts_cases (d : Decimal) :
    (d.dotPlace = d.leftDigits ∧ d.leftDigits ≤ 0 ∧
      d.parts = (['0'], List.replicate (-d.leftDigits).toNat '0' ++ d.digits)) ∨
    (d.dotPlace = d.digits.length ∧ d.parts = (d.digits, [])) ∨
    (0 < d.dotPlace ∧ d.dotPlace < d.digits.length ∧
      d.parts = (d.digits.take d.dotPlace.toNat, d.digits.drop d.dotPlace.toNat)) := by
  have hpos := d.length_digits_pos
  have hleft : d.dotPlace ≤ d.digits.length ∧ (d.dotPlace ≤ 0 → d.dotPlace = d.leftDigits) := by
    rw [dotPlace]
    split
    · next h =>
      rw [leftDigits] at h ⊢
      omega
    · omega
  rw [parts]
  by_cases hzero : d.dotPlace ≤ 0
  · have hdot := hleft.2 hzero
    rw [if_pos hzero, hdot]
    exact Or.inl ⟨rfl, hdot ▸ hzero, rfl⟩
  · rw [if_neg hzero]
    by_cases hall : d.digits.length ≤ d.dotPlace
    · have hdot : d.dotPlace = d.digits.length := le_antisymm hleft.1 hall
      rw [if_pos hall, hdot, sub_self]
      exact Or.inr (Or.inl ⟨rfl, by simp⟩)
    · rw [if_neg hall]
      exact Or.inr (Or.inr ⟨by omega, by omega, rfl⟩)

theorem parts_isDigit (d : Decimal) :
    (∀ c ∈ d.parts.1, c.isDigit = true) ∧ ∀ c ∈ d.parts.2, c.isDigit = true := by
  rcases d.parts_cases with ⟨-, -, h⟩ | ⟨-, h⟩ | ⟨-, -, h⟩
  · rw [h]
    refine ⟨fun c hc => ?_, fun c hc => ?_⟩
    · rw [List.mem_singleton.mp hc]
      rfl
    · rcases List.mem_append.mp hc with hc | hc
      · rw [List.eq_of_mem_replicate hc]
        rfl
      · exact isDigit_of_mem_digits hc
  · rw [h]
    exact ⟨fun c hc => isDigit_of_mem_digits hc, fun c hc => by cases hc⟩
  · rw [h]
    exact ⟨fun c hc => isDigit_of_mem_digits (List.mem_of_mem_take hc),
      fun c hc => isDigit_of_mem_digits (List.mem_of_mem_drop hc)⟩

theorem parts_ne_nil (d : Decimal) : d.parts.1 ≠ [] := by
  have hpos := d.length_digits_pos
  intro hnil
  rcases d.parts_cases with ⟨-, -, h⟩ | ⟨-, h⟩ | ⟨hdot, -, h⟩
  · rw [h] at hnil
    cases hnil
  · rw [h] at hnil
    rw [show d.digits = [] from hnil] at hpos
    cases hpos
  · rw [h, List.take_eq_nil_iff] at hnil
    rcases hnil with hnil | hnil
    · omega
    · rw [hnil] at hpos
      cases hpos

/-- The digits of the text are those of the coefficient, behind zeros. -/
theorem parts_coefficient (d : Decimal) :
    Nat.ofDigitChars 10 (d.parts.1 ++ d.parts.2) 0 = d.coefficient := by
  rcases d.parts_cases with ⟨-, -, h⟩ | ⟨-, h⟩ | ⟨-, -, h⟩
  · rw [h, Nat.ofDigitChars_append, Nat.ofDigitChars_append, digits]
    have hzero : Nat.ofDigitChars 10 ['0'] 0 = 0 := rfl
    rw [hzero, Nat.ofDigitChars_replicate_zero, mul_zero, Nat.ofDigitChars_ten_toDigits]
  · rw [h, List.append_nil, digits, Nat.ofDigitChars_ten_toDigits]
  · rw [h, List.take_append_drop, digits, Nat.ofDigitChars_ten_toDigits]

/-- The exponent of the text and the digits after the point give the exponent. -/
theorem parts_exponent (d : Decimal) :
    d.leftDigits - d.dotPlace - d.parts.2.length = d.exponent := by
  rcases d.parts_cases with ⟨hdot, hleft, h⟩ | ⟨hdot, h⟩ | ⟨hpos, hdot, h⟩
  · rw [h, hdot, List.length_append, List.length_replicate]
    rw [leftDigits] at hleft ⊢
    omega
  · rw [h, hdot, leftDigits, List.length_nil]
    omega
  · rw [h, List.length_drop, leftDigits]
    omega

/-! ## Reading -/

def readExponent : List Char → Option Int
  | [] => some 0
  | _ :: '-' :: ds =>
      if ds ≠ [] ∧ ds.all Char.isDigit then some (-(Nat.ofDigitChars 10 ds 0 : Int)) else none
  | _ :: '+' :: ds =>
      if ds ≠ [] ∧ ds.all Char.isDigit then some (Nat.ofDigitChars 10 ds 0) else none
  | _ :: ds => if ds ≠ [] ∧ ds.all Char.isDigit then some (Nat.ofDigitChars 10 ds 0) else none

def isExponentMark (c : Char) : Bool := c = 'E' || c = 'e'

/-- A number without its sign. -/
def readUnsigned (negative : Bool) (word : List Char) : Option Decimal :=
  let mantissa := word.takeWhile fun c => !isExponentMark c
  let whole := mantissa.takeWhile (· ≠ '.')
  let fraction := (mantissa.dropWhile (· ≠ '.')).drop 1
  if whole ++ fraction ≠ [] ∧ (whole ++ fraction).all Char.isDigit then
    (readExponent (word.dropWhile fun c => !isExponentMark c)).map fun e =>
      { negative := negative
        coefficient := Nat.ofDigitChars 10 (whole ++ fraction) 0
        exponent := e - fraction.length }
  else none

/-- `Decimal(text)` of a numeric string. -/
def read (s : String) : Option Decimal :=
  match s.toList with
  | '-' :: word => readUnsigned true word
  | '+' :: word => readUnsigned false word
  | word => readUnsigned false word

theorem not_exponentMark {c : Char} (h : c.isDigit = true) : isExponentMark c = false := by
  rw [isExponentMark, Bool.or_eq_false_iff, decide_eq_false_iff_not, decide_eq_false_iff_not]
  constructor
  · rintro rfl
    cases h
  · rintro rfl
    cases h

theorem ne_point {c : Char} (h : c.isDigit = true) : c ≠ '.' := by
  rintro rfl
  cases h

theorem readExponent_exponentText (e : Int) : readExponent (exponentText e) = some e := by
  by_cases hzero : e = 0
  · rw [exponentText, if_pos hzero, hzero]
    rfl
  · have hdigits : Nat.toDigits 10 e.natAbs ≠ [] ∧
        (Nat.toDigits 10 e.natAbs).all Char.isDigit = true :=
      ⟨Nat.toDigits_ne_nil, List.all_eq_true.mpr fun _ =>
        Nat.isDigit_of_mem_toDigits (by decide) (by decide)⟩
    rw [exponentText, if_neg hzero]
    by_cases hneg : e < 0
    · rw [if_pos hneg, readExponent, if_pos hdigits, Nat.ofDigitChars_ten_toDigits]
      exact congrArg some (by omega)
    · rw [if_neg hneg, readExponent, if_pos hdigits, Nat.ofDigitChars_ten_toDigits]
      exact congrArg some (by omega)

theorem takeWhile_append_stop {p : Char → Bool} {word rest : List Char}
    (hword : ∀ c ∈ word, p c = true) (hrest : ∀ c ∈ rest.head?, p c = false) :
    (word ++ rest).takeWhile p = word ∧ (word ++ rest).dropWhile p = rest := by
  have hstop : rest.takeWhile p = [] ∧ rest.dropWhile p = rest := by
    cases rest with
    | nil => exact ⟨rfl, rfl⟩
    | cons c rest => simp [hrest c rfl]
  rw [List.takeWhile_append_of_pos hword, List.dropWhile_append_of_pos hword, hstop.1, hstop.2]
  exact ⟨List.append_nil _, rfl⟩

theorem readUnsigned_characters (negative : Bool) (d : Decimal) :
    readUnsigned negative (d.parts.1 ++ fractionText d.parts.2 ++
      exponentText (d.leftDigits - d.dotPlace)) = some { d with negative := negative } := by
  obtain ⟨hwhole, hfraction⟩ := d.parts_isDigit
  have hmantissa : ∀ c ∈ d.parts.1 ++ fractionText d.parts.2, (!isExponentMark c) = true := by
    intro c hc
    rw [Bool.not_eq_true']
    rcases List.mem_append.mp hc with hc | hc
    · exact not_exponentMark (hwhole c hc)
    · rw [fractionText] at hc
      split at hc
      · cases hc
      · rcases List.mem_cons.mp hc with rfl | hc
        · rfl
        · exact not_exponentMark (hfraction c hc)
  have hexponent : ∀ c ∈ (exponentText (d.leftDigits - d.dotPlace)).head?,
      (!isExponentMark c) = false := by
    intro c hc
    rw [exponentText] at hc
    split at hc
    · cases hc
    · obtain rfl := Option.some.inj hc
      rfl
  obtain ⟨htake, hdrop⟩ := takeWhile_append_stop hmantissa hexponent
  have hpoint : ∀ c ∈ (fractionText d.parts.2).head?, decide (c ≠ '.') = false := by
    intro c hc
    rw [fractionText] at hc
    split at hc
    · cases hc
    · obtain rfl := Option.some.inj hc
      rfl
  obtain ⟨htake', hdrop'⟩ := takeWhile_append_stop
    (fun c hc => decide_eq_true (ne_point (hwhole c hc))) hpoint
  have hrest : (fractionText d.parts.2).drop 1 = d.parts.2 := by
    rw [fractionText]
    split
    · next h => rw [h]; rfl
    · rfl
  have hall : (d.parts.1 ++ d.parts.2) ≠ [] ∧ (d.parts.1 ++ d.parts.2).all Char.isDigit = true := by
    refine ⟨fun h => d.parts_ne_nil (List.append_eq_nil_iff.mp h).1, List.all_eq_true.mpr ?_⟩
    intro c hc
    exact (List.mem_append.mp hc).elim (hwhole c) (hfraction c)
  rw [readUnsigned, htake, hdrop]
  simp only [htake', hdrop', hrest]
  rw [if_pos hall, readExponent_exponentText, Option.map_some, d.parts_coefficient,
    d.parts_exponent]

/-- A decimal is read from its text. -/
theorem read_text (d : Decimal) : read d.text = some d := by
  rw [read, text, String.toList_ofList, characters]
  cases hneg : d.negative with
  | true =>
      rw [if_pos rfl, List.append_assoc, List.append_assoc, List.singleton_append]
      rw [← List.append_assoc]
      exact (readUnsigned_characters true d).trans (by rw [← hneg])
  | false =>
      have hunsigned := readUnsigned_characters false d
      rw [if_neg Bool.false_ne_true, List.nil_append]
      have hhead : ∀ c rest, d.parts.1 ++ fractionText d.parts.2 ++
          exponentText (d.leftDigits - d.dotPlace) = c :: rest → c.isDigit = true := by
        intro c rest heq
        cases hparts : d.parts.1 with
        | nil => exact absurd hparts d.parts_ne_nil
        | cons first others =>
            rw [hparts] at heq
            obtain rfl : first = c := List.head_eq_of_cons_eq heq
            exact d.parts_isDigit.1 first (hparts ▸ List.mem_cons_self)
      split
      · next heq => cases hhead _ _ heq
      · next heq => cases hhead _ _ heq
      · exact hunsigned.trans (by rw [← hneg])

theorem text_injective : Function.Injective text := by
  intro d d' h
  have hread := read_text d
  rw [h, read_text] at hread
  exact (Option.some.inj hread).symm

example : text ⟨true, 1234, -2⟩ = "-12.34" := by decide +kernel

example : text ⟨false, 0, -10⟩ = "0E-10" := by decide +kernel

end Decimal

end Basis
