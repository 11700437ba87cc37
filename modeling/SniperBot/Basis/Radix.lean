import Mathlib.Data.Nat.Digits.Lemmas
import Mathlib.Data.List.TakeWhile

/-!
# Words over a base

A word of digits, the greatest one first, is its leading zeros followed by the digits of its number
(`word_number`). Two positional systems that write the same number after the same zeros are then
translated into one another without loss.
-/

namespace Basis

/-- The number of a word, the greatest digit first. -/
def wordNumber (b : ℕ) (digits : List ℕ) : ℕ := digits.foldl (fun n d => n * b + d) 0

def leadingZeros (digits : List ℕ) : ℕ := (digits.takeWhile (· = 0)).length

/-- The word of a number, after some zeros. -/
def word (b zeros n : ℕ) : List ℕ := List.replicate zeros 0 ++ (Nat.digits b n).reverse

theorem wordNumber_eq (b : ℕ) (digits : List ℕ) :
    wordNumber b digits = Nat.ofDigits b digits.reverse := by
  rw [wordNumber, Nat.ofDigits_eq_foldr, List.foldr_reverse]
  refine congrArg (fun f => List.foldl f 0 digits) (funext₂ fun n d => ?_)
  rw [Nat.cast_id, Nat.mul_comm, Nat.add_comm]

theorem wordNumber_word (b zeros n : ℕ) : wordNumber b (word b zeros n) = n := by
  rw [wordNumber_eq, word, List.reverse_append, List.reverse_reverse, List.reverse_replicate,
    Nat.ofDigits_append_replicate_zero, Nat.ofDigits_digits]

theorem leadingZeros_word (b zeros n : ℕ) : leadingZeros (word b zeros n) = zeros := by
  have hrest : (Nat.digits b n).reverse.takeWhile (· = 0) = [] := by
    cases hdigits : (Nat.digits b n).reverse with
    | nil => rfl
    | cons d rest =>
        have hne : Nat.digits b n ≠ [] := by
          intro hnil
          rw [hnil] at hdigits
          cases hdigits
        have hlast : (Nat.digits b n).getLast hne = d := by
          rw [← List.head_reverse (by simpa using hne)]
          simp only [hdigits, List.head_cons]
        have hzero : d ≠ 0 := hlast ▸ Nat.getLast_digit_ne_zero b
          (Nat.digits_ne_nil_iff_ne_zero.mp hne)
        exact List.takeWhile_cons_of_neg (by simpa using hzero)
  rw [leadingZeros, word, List.takeWhile_append_of_pos, hrest, List.append_nil,
    List.length_replicate]
  intro d hd
  simpa using List.eq_of_mem_replicate hd

theorem takeWhile_zero_eq (digits : List ℕ) :
    digits.takeWhile (· = 0) = List.replicate (leadingZeros digits) 0 := by
  refine List.eq_replicate_of_mem fun d hd => ?_
  simpa using List.mem_takeWhile_imp hd

/-- A word is the word of its number after its zeros. -/
theorem word_number {b : ℕ} (hb : 1 < b) {digits : List ℕ} (hlt : ∀ d ∈ digits, d < b) :
    word b (leadingZeros digits) (wordNumber b digits) = digits := by
  have hsplit := List.takeWhile_append_dropWhile (p := (· = 0)) (l := digits)
  have hnumber : wordNumber b digits =
      Nat.ofDigits b (digits.dropWhile (· = 0)).reverse := by
    rw [wordNumber_eq]
    conv_lhs => rw [← hsplit]
    rw [takeWhile_zero_eq, List.reverse_append, List.reverse_replicate,
      Nat.ofDigits_append_replicate_zero]
  have hlast : ∀ h : (digits.dropWhile (· = 0)).reverse ≠ [],
      (digits.dropWhile (· = 0)).reverse.getLast h ≠ 0 := by
    intro h
    rw [List.getLast_reverse]
    have hhead := List.head_dropWhile_not (fun d => decide (d = 0)) (l := digits)
      (by simpa using h)
    exact of_decide_eq_false hhead
  rw [word, hnumber, Nat.digits_ofDigits b hb _ ?_ hlast, List.reverse_reverse,
    ← takeWhile_zero_eq, hsplit]
  intro d hd
  exact hlt d ((List.dropWhile_suffix _).subset (List.mem_reverse.mp hd))

end Basis
