import Mathlib.Data.Nat.Digits.Lemmas
import Mathlib.Tactic.NormNum

/-!
# Dates

The proleptic Gregorian calendar over all the integers: the ordinal of a date, the date of an
ordinal, and the ISO text of a date. Ordinal 1 is the first day of the year 1. Both conversions are
the ones of the standard library of the source's language, which has the years 1 to 9999 only.

The date of an ordinal has that ordinal, and the text of a date is the text of no other one.
-/

namespace Basis

structure Date where
  year : Int
  month : Nat
  day : Nat
  deriving DecidableEq, Repr

namespace Date

def IsLeap (year : Int) : Prop := year % 4 = 0 ∧ (year % 100 ≠ 0 ∨ year % 400 = 0)

instance (year : Int) : Decidable (IsLeap year) := inferInstanceAs (Decidable (_ ∧ _))

def daysBeforeYear (year : Int) : Int :=
  (year - 1) * 365 + (year - 1) / 4 - (year - 1) / 100 + (year - 1) / 400

/-- Days before the first of a month, by the number of the month. -/
def daysBeforeMonth (leap : Bool) (month : Nat) : Nat :=
  [0, 0, 31, 59, 90, 120, 151, 181, 212, 243, 273, 304, 334].getD month 0 +
    if leap && 2 < month then 1 else 0

def ordinal (date : Date) : Int :=
  daysBeforeYear date.year + daysBeforeMonth (IsLeap date.year) date.month + date.day

/-- The month and the day of the month, from the days before the date in its year. The first
estimate of the month is its own or the next one. -/
def monthAndDay (leap : Bool) (days : Nat) : Nat × Nat :=
  let estimate := (days + 50) / 32
  let month := if days < daysBeforeMonth leap estimate then estimate - 1 else estimate
  (month, days - daysBeforeMonth leap month + 1)

/-- The date of an ordinal, by cycles of 400, 100, 4 and 1 years. -/
def ofOrdinal (n : Int) : Date :=
  let n400 := (n - 1) / 146097
  let in400 := (n - 1) % 146097
  let n100 := in400 / 36524
  let in100 := in400 % 36524
  let n4 := in100 / 1461
  let in4 := in100 % 1461
  let n1 := in4 / 365
  let days := in4 % 365
  let year := n400 * 400 + 1 + n100 * 100 + n4 * 4 + n1
  -- the last day of a leap year is beyond four years of 365 days
  if n1 = 4 ∨ n100 = 4 then ⟨year - 1, 12, 31⟩
  else
    let leap : Bool := n1 = 3 ∧ (n4 ≠ 24 ∨ n100 = 3)
    ⟨year, (monthAndDay leap days.toNat).1, (monthAndDay leap days.toNat).2⟩

/-! ## Ordinals -/

/-- Every day of a year has its month. -/
theorem monthAndDay_spec (leap : Bool) (days : Nat) (h : days < if leap then 366 else 365) :
    daysBeforeMonth leap (monthAndDay leap days).1 + (monthAndDay leap days).2 = days + 1 ∧
      (monthAndDay leap days).1 < 13 ∧ (monthAndDay leap days).2 < 32 := by
  have hall : ∀ leap : Bool, ∀ days < if leap then 366 else 365,
      daysBeforeMonth leap (monthAndDay leap days).1 + (monthAndDay leap days).2 = days + 1 ∧
        (monthAndDay leap days).1 < 13 ∧ (monthAndDay leap days).2 < 32 := by decide +kernel
  exact hall leap days h

/-- The leap years of a cycle of 400 years. -/
theorem isLeap_iff {n400 n100 n4 n1 : Int} (h100 : 0 ≤ n100 ∧ n100 ≤ 3) (h4 : 0 ≤ n4 ∧ n4 ≤ 24)
    (h1 : 0 ≤ n1 ∧ n1 ≤ 3) :
    IsLeap (n400 * 400 + 1 + n100 * 100 + n4 * 4 + n1) ↔ n1 = 3 ∧ (n4 ≠ 24 ∨ n100 = 3) := by
  unfold IsLeap
  omega

theorem daysBeforeYear_eq {n400 n100 n4 n1 : Int} (h100 : 0 ≤ n100 ∧ n100 ≤ 3)
    (h4 : 0 ≤ n4 ∧ n4 ≤ 24) (h1 : 0 ≤ n1 ∧ n1 ≤ 3) :
    daysBeforeYear (n400 * 400 + 1 + n100 * 100 + n4 * 4 + n1) =
      n400 * 146097 + n100 * 36524 + n4 * 1461 + n1 * 365 := by
  unfold daysBeforeYear
  omega

/-- The last day of a leap year. -/
theorem ordinal_lastDay {n400 n100 n4 : Int} (h100 : 0 ≤ n100 ∧ n100 ≤ 3)
    (h4 : 0 ≤ n4 ∧ n4 ≤ 24) (hleap : n4 ≠ 24 ∨ n100 = 3) :
    ordinal ⟨n400 * 400 + 1 + n100 * 100 + n4 * 4 + 3, 12, 31⟩ =
      n400 * 146097 + n100 * 36524 + n4 * 1461 + 1461 := by
  have hyear : IsLeap (n400 * 400 + 1 + n100 * 100 + n4 * 4 + 3) :=
    (isLeap_iff h100 h4 (by omega)).mpr ⟨rfl, hleap⟩
  have hmonth : daysBeforeMonth true 12 = 335 := rfl
  rw [ordinal, daysBeforeYear_eq h100 h4 (by omega), decide_eq_true hyear, hmonth]
  norm_num
  ring

/-- The date of an ordinal has that ordinal. -/
theorem ordinal_ofOrdinal (n : Int) : (ofOrdinal n).ordinal = n := by
  obtain ⟨n400, in400, h400, hn⟩ : ∃ n400 in400 : Int, (0 ≤ in400 ∧ in400 < 146097) ∧
      n = n400 * 146097 + in400 + 1 := ⟨(n - 1) / 146097, (n - 1) % 146097, by omega, by omega⟩
  obtain ⟨n100, in100, h100, rfl⟩ : ∃ n100 in100 : Int, (0 ≤ in100 ∧ in100 < 36524) ∧
      in400 = n100 * 36524 + in100 := ⟨in400 / 36524, in400 % 36524, by omega, by omega⟩
  obtain ⟨n4, in4, h4, rfl⟩ : ∃ n4 in4 : Int, (0 ≤ in4 ∧ in4 < 1461) ∧
      in100 = n4 * 1461 + in4 := ⟨in100 / 1461, in100 % 1461, by omega, by omega⟩
  obtain ⟨n1, days, h1, rfl⟩ : ∃ n1 days : Int, (0 ≤ days ∧ days < 365) ∧
      in4 = n1 * 365 + days := ⟨in4 / 365, in4 % 365, by omega, by omega⟩
  have e400 : (n - 1) / 146097 = n400 := by omega
  have r400 : (n - 1) % 146097 = n100 * 36524 + (n4 * 1461 + (n1 * 365 + days)) := by omega
  have e100 : (n100 * 36524 + (n4 * 1461 + (n1 * 365 + days))) / 36524 = n100 := by omega
  have r100 : (n100 * 36524 + (n4 * 1461 + (n1 * 365 + days))) % 36524 =
      n4 * 1461 + (n1 * 365 + days) := by omega
  have e4 : (n4 * 1461 + (n1 * 365 + days)) / 1461 = n4 := by omega
  have r4 : (n4 * 1461 + (n1 * 365 + days)) % 1461 = n1 * 365 + days := by omega
  have e1 : (n1 * 365 + days) / 365 = n1 := by omega
  have r1 : (n1 * 365 + days) % 365 = days := by omega
  simp only [ofOrdinal, e400, r400, e100, r100, e4, r4, e1, r1]
  by_cases hlast : n1 = 4 ∨ n100 = 4
  · rw [if_pos hlast]
    rcases hlast with rfl | rfl
    · have hyear : n400 * 400 + 1 + n100 * 100 + n4 * 4 + 4 - 1 =
          n400 * 400 + 1 + n100 * 100 + n4 * 4 + 3 := by ring
      rw [hyear, ordinal_lastDay (by omega) (by omega) (by omega)]
      omega
    · have hyear : n400 * 400 + 1 + 4 * 100 + n4 * 4 + n1 - 1 =
          n400 * 400 + 1 + 3 * 100 + 24 * 4 + 3 := by omega
      rw [hyear, ordinal_lastDay (by omega) (by omega) (by omega)]
      omega
  · rw [if_neg hlast]
    have b100 : 0 ≤ n100 ∧ n100 ≤ 3 := by omega
    have b4 : 0 ≤ n4 ∧ n4 ≤ 24 := by omega
    have b1 : 0 ≤ n1 ∧ n1 ≤ 3 := by omega
    obtain ⟨hmonth, -, -⟩ := monthAndDay_spec (n1 = 3 ∧ (n4 ≠ 24 ∨ n100 = 3) : Bool)
      days.toNat (by split <;> omega)
    simp only [ordinal, daysBeforeYear_eq b100 b4 b1, isLeap_iff b100 b4 b1]
    omega

theorem ofOrdinal_injective : Function.Injective ofOrdinal :=
  Function.LeftInverse.injective ordinal_ofOrdinal

/-- The month and the day of the date of an ordinal have two digits. -/
theorem ofOrdinal_lt (n : Int) : (ofOrdinal n).month < 100 ∧ (ofOrdinal n).day < 100 := by
  simp only [ofOrdinal]
  split
  · constructor <;> norm_num
  · have hdays (leap : Bool) : ((n - 1) % 146097 % 36524 % 1461 % 365).toNat <
        if leap then 366 else 365 := by split <;> omega
    exact ⟨(monthAndDay_spec _ _ (hdays _)).2.1.trans (by decide),
      (monthAndDay_spec _ _ (hdays _)).2.2.trans (by decide)⟩

/-! ## Text -/

/-- A number with at least the given count of digits. -/
def padded (width n : Nat) : List Char := ((Nat.digitsAppend 10 width n).map Nat.digitChar).reverse

/-- The digits of the year, four at least. Years below 1 are no years of the source. -/
def yearText : Int → List Char
  | .ofNat n => padded 4 n
  | .negSucc n => '-' :: padded 4 (n + 1)

/-- `isoformat` -/
def isoformat (date : Date) : String :=
  String.ofList
    (yearText date.year ++ '-' :: (padded 2 date.month ++ '-' :: padded 2 date.day))

theorem length_padded {width n : Nat} (h : n < 10 ^ width) : (padded width n).length = width := by
  rw [padded, List.length_reverse, List.length_map,
    Nat.length_digitsAppend (by decide) width h]

theorem padded_injective (width : Nat) : Function.Injective (padded width) := by
  have hread : Function.LeftInverse
      (fun text => Nat.ofDigits 10 (text.reverse.map fun c => c.toNat - 48)) (padded width) := by
    intro n
    have hdigit : ∀ d ∈ Nat.digitsAppend 10 width n,
        ((fun c : Char => c.toNat - 48) ∘ Nat.digitChar) d = d := by
      intro d hd
      rw [Function.comp, Nat.toNat_digitChar_of_lt_ten (Nat.lt_of_mem_digitsAppend (by decide) _ _ hd)]
      omega
    simp only [padded]
    rw [List.reverse_reverse, List.map_map, List.map_congr_left hdigit, List.map_id',
      Nat.digitsAppend, Nat.ofDigits_append_replicate_zero, Nat.ofDigits_digits]
  exact Function.LeftInverse.injective hread

theorem notMem_padded (width n : Nat) : '-' ∉ padded width n := by
  rw [padded, List.mem_reverse, List.mem_map]
  rintro ⟨d, hd, hchar⟩
  have hlt := Nat.lt_of_mem_digitsAppend (by decide) _ _ hd
  have hcode := Nat.toNat_digitChar_of_lt_ten hlt
  rw [hchar] at hcode
  exact absurd hcode (by change 45 ≠ _; omega)

theorem yearText_injective : Function.Injective yearText := by
  intro y z h
  cases y <;> cases z <;> rename_i m n
  · exact congrArg Int.ofNat (padded_injective 4 h)
  · refine absurd (h ▸ List.mem_cons_self : '-' ∈ yearText (.ofNat m)) (notMem_padded 4 m)
  · refine absurd (h ▸ List.mem_cons_self : '-' ∈ yearText (.ofNat n)) (notMem_padded 4 n)
  · have htail := padded_injective 4 (List.cons.inj h).2
    rw [Nat.succ.inj htail]

/-- Dates of two digits have different texts. -/
theorem isoformat_inj {date other : Date} (h : date.month < 100 ∧ date.day < 100)
    (h' : other.month < 100 ∧ other.day < 100) (heq : date.isoformat = other.isoformat) :
    date = other := by
  have htext := String.ofList_injective heq
  have hmonth (n n' : Nat) (hn : n < 100) (hn' : n' < 100) :
      (padded 2 n).length = (padded 2 n').length :=
    (length_padded hn).trans (length_padded hn').symm
  obtain ⟨hyear, hrest⟩ := List.append_inj' htext (by
    simp only [List.length_cons, List.length_append, hmonth _ _ h.1 h'.1, hmonth _ _ h.2 h'.2])
  obtain ⟨hm, hd⟩ := List.append_inj (List.cons.inj hrest).2 (hmonth _ _ h.1 h'.1)
  obtain ⟨year, month, day⟩ := date
  obtain ⟨year', month', day'⟩ := other
  obtain rfl : year = year' := yearText_injective hyear
  obtain rfl : month = month' := padded_injective 2 hm
  obtain rfl : day = day' := padded_injective 2 (List.cons.inj hd).2
  rfl

/-- The text of a day is the text of no other one. -/
theorem isoformat_ofOrdinal_injective : Function.Injective fun n => (ofOrdinal n).isoformat :=
  fun m n h => ofOrdinal_injective (isoformat_inj (ofOrdinal_lt m) (ofOrdinal_lt n) h)

example : (ofOrdinal 738945).isoformat = "2024-02-29" := by decide +kernel

end Date

end Basis
