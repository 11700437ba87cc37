import SniperBot.Basis.Text

/-!
# Words and numbers of a text

`s.split()` gives the words between white space, and `int(s)` reads a number that is written in
ASCII. A line that is made of words gives them back, and so does a decimal number.
-/

namespace Basis.Text

/-! ## Words -/

/-- `s.split()` -/
def words (s : List Char) : List (List Char) := (s.splitOnP isSpace).filter (· ≠ [])

/-- A text that is not empty and has no white space in it. -/
def IsWord (w : List Char) : Prop := w ≠ [] ∧ ∀ c ∈ w, isSpace c = false

instance (w : List Char) : Decidable (IsWord w) :=
  haveI : Decidable (∀ c ∈ w, isSpace c = false) := List.decidableBAll _ _
  inferInstanceAs (Decidable (_ ∧ _))

theorem head_space {c : Char} (hc : isSpace c = true) (s : List Char) :
    ∀ c' ∈ (c :: s).head?, isSpace c' = true := by
  intro c' hc'
  rw [← Option.some.inj hc']
  exact hc

theorem words_space {c : Char} (hc : isSpace c = true) (s : List Char) :
    words (c :: s) = words s := by
  have hsplit := List.splitOnP_append_cons [] s hc
  rw [List.nil_append] at hsplit
  simp [words, hsplit, List.splitOnP_nil]

/-- A word in front of white space. -/
theorem words_append {w s : List Char} (hw : IsWord w) (hs : ∀ c ∈ s.head?, isSpace c = true) :
    words (w ++ s) = w :: words s := by
  have hone : w.splitOnP isSpace = [w] := List.splitOnP_eq_singleton hw.2
  cases s with
  | nil => simp [words, hone, List.splitOnP_nil, hw.1]
  | cons c s =>
      have hc : isSpace c = true := hs c rfl
      have hsplit := List.splitOnP_append_cons w s hc
      rw [words_space hc, words, hsplit, hone]
      simp [words, hw.1]

/-- Words with a blank in front of each. -/
def blankJoin (ws : List (List Char)) : List Char := (ws.map (' ' :: ·)).flatten

theorem words_blankJoin {ws : List (List Char)} (hws : ∀ w ∈ ws, IsWord w) {s : List Char}
    (hs : ∀ c ∈ s.head?, isSpace c = true) : words (blankJoin ws ++ s) = ws ++ words s := by
  induction ws with
  | nil => rfl
  | cons w ws ih =>
      have hrest : ∀ c ∈ (blankJoin ws ++ s).head?, isSpace c = true := by
        cases ws with
        | nil => exact hs
        | cons w' ws => simp [blankJoin, isSpace]
      have hword := words_append (hws w List.mem_cons_self) hrest
      calc words (blankJoin (w :: ws) ++ s)
          = words (' ' :: (w ++ (blankJoin ws ++ s))) := by simp [blankJoin]
        _ = w :: words (blankJoin ws ++ s) := by rw [words_space (by decide), hword]
        _ = w :: ws ++ words s := by
            rw [ih fun w' hw' => hws w' (List.mem_cons_of_mem _ hw')]
            rfl

/-! ## Numbers -/

/-- Digits, with single underscores between them. -/
def readDigits (s : List Char) : Option ℕ :=
  if (s.splitOn '_').all fun group => group ≠ [] ∧ group.all Char.isDigit then
    some (Nat.ofDigitChars 10 (s.filter (· ≠ '_')) 0)
  else none

/-- `int(word)`, of a word in ASCII. -/
def readInt : List Char → Option ℤ
  | '-' :: s => (readDigits s).map fun n => -(n : ℤ)
  | '+' :: s => (readDigits s).map fun n => (n : ℤ)
  | s => (readDigits s).map fun n => (n : ℤ)

theorem toNat_of_isDigit {c : Char} (h : c.isDigit = true) : 48 ≤ c.toNat ∧ c.toNat ≤ 57 := by
  simp only [Char.isDigit, Bool.and_eq_true, decide_eq_true_eq, ge_iff_le, UInt32.le_iff_toNat_le]
    at h
  exact h

theorem isWord_toDigits (n : ℕ) : IsWord (Nat.toDigits 10 n) := by
  refine ⟨Nat.toDigits_ne_nil, fun c hc => ?_⟩
  have hdigit := toNat_of_isDigit (Nat.isDigit_of_mem_toDigits (by decide) (by decide) hc)
  simp only [isSpace, Bool.or_eq_false_iff, Bool.and_eq_false_iff, decide_eq_false_iff_not]
  omega

theorem readDigits_toDigits (n : ℕ) : readDigits (Nat.toDigits 10 n) = some n := by
  have hplain : ∀ c ∈ Nat.toDigits 10 n, c ≠ '_' := fun c hc heq =>
    notMem_toDigits (by decide) n (heq ▸ hc)
  have hone : (Nat.toDigits 10 n).splitOn '_' = [Nat.toDigits 10 n] :=
    List.splitOnP_eq_singleton fun c hc => beq_eq_false_iff_ne.mpr (hplain c hc)
  have hfilter : (Nat.toDigits 10 n).filter (· ≠ '_') = Nat.toDigits 10 n :=
    List.filter_eq_self.mpr fun c hc => decide_eq_true (hplain c hc)
  rw [readDigits, hone, hfilter, if_pos, Nat.ofDigitChars_ten_toDigits]
  have hdigits : ∀ c ∈ Nat.toDigits 10 n, c.isDigit = true :=
    fun c hc => Nat.isDigit_of_mem_toDigits (by decide) (by decide) hc
  simpa [Nat.toDigits_ne_nil] using hdigits

theorem readInt_toDigits (n : ℕ) : readInt (Nat.toDigits 10 n) = some (n : ℤ) := by
  have hread := readDigits_toDigits n
  unfold readInt
  split
  · next s hsign => exact absurd (hsign ▸ List.mem_cons_self) (notMem_toDigits (by decide) n)
  · next s hsign => exact absurd (hsign ▸ List.mem_cons_self) (notMem_toDigits (by decide) n)
  · rw [hread]
    rfl

end Basis.Text
