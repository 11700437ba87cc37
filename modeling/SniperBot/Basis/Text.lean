import Mathlib.Data.List.Infix
import Mathlib.Data.List.Basic
import Mathlib.Data.Finset.Sort
import Mathlib.Data.String.Basic

/-!
# Text

Strings as sequences of code points: the tests `startswith`, `endswith` and `in`, the words of a
line, and stripping. All of them are stated over `String.toList`, so that the lemmas about lists
apply; all of them can be evaluated.
-/

namespace Basis.Text

/-! ## Patterns -/

/-- `s.startswith(p)` -/
def StartsWith (p s : String) : Prop := p.toList <+: s.toList

/-- `s.endswith(p)` -/
def EndsWith (p s : String) : Prop := p.toList <:+ s.toList

/-- `p in s` -/
def Contains (p s : String) : Prop := p.toList <:+: s.toList

instance (p s : String) : Decidable (StartsWith p s) :=
  inferInstanceAs (Decidable (p.toList <+: s.toList))

instance (p s : String) : Decidable (EndsWith p s) :=
  inferInstanceAs (Decidable (p.toList <:+ s.toList))

instance (p s : String) : Decidable (Contains p s) :=
  inferInstanceAs (Decidable (p.toList <:+: s.toList))

theorem startsWith_append (p s : String) : StartsWith p (p ++ s) := by
  rw [StartsWith, String.toList_append]
  exact List.prefix_append _ _

theorem endsWith_append (s p : String) : EndsWith p (s ++ p) := by
  rw [EndsWith, String.toList_append]
  exact List.suffix_append _ _

theorem contains_append (a p b : String) : Contains p (a ++ p ++ b) := by
  rw [Contains, String.toList_append, String.toList_append]
  exact List.infix_append _ _ _

/-- A text without one of the characters of a pattern does not contain it. -/
theorem not_contains_of_notMem {p s : String} {c : Char} (hp : c ∈ p.toList)
    (hs : c ∉ s.toList) : ¬ Contains p s :=
  fun h => hs (h.subset hp)

/-- A pattern without a mark, in two texts with that mark in between, is in one of them. -/
theorem contains_append_mark_iff {p a b : String} {c : Char} (hp : c ∉ p.toList) :
    Contains p (a ++ String.singleton c ++ b) ↔ Contains p a ∨ Contains p b := by
  have htext : (a ++ String.singleton c ++ b).toList = a.toList ++ c :: b.toList := by
    simp [String.toList_append]
  unfold Contains
  rw [htext]
  constructor
  · rintro ⟨s, t, hst⟩
    rcases List.append_eq_append_iff.mp hst with ⟨rest, ha, -⟩ | ⟨rest, hleft, hright⟩
    · exact Or.inl ⟨s, rest, ha.symm⟩
    · rcases List.append_eq_append_iff.mp hleft with ⟨before, ha, hpattern⟩ | ⟨after, -, rfl⟩
      · cases rest with
        | nil =>
            rw [List.append_nil] at hpattern
            exact Or.inl ⟨s, [], by rw [List.append_nil, hpattern, ha]⟩
        | cons d rest =>
            rw [(List.cons.inj hright).1, hpattern] at hp
            exact absurd (List.mem_append_right _ List.mem_cons_self) hp
      · cases after with
        | nil =>
            cases hpattern : p.toList with
            | nil => exact Or.inl List.nil_infix
            | cons d pattern =>
                rw [hpattern] at hp hright
                exact absurd ((List.cons.inj hright).1 ▸ List.mem_cons_self) hp
        | cons d after => exact Or.inr ⟨after, t, (List.cons.inj hright).2.symm⟩
  · rintro (h | h)
    · exact h.trans (List.infix_append' [] _ _)
    · exact h.trans ⟨a.toList ++ [c], [], by simp⟩

/-- A text with two known beginnings: one of them begins the other. -/
theorem startsWith_or_of_startsWith {p q s : String} (h : StartsWith p (q ++ s)) :
    StartsWith p q ∨ StartsWith q p := by
  rw [StartsWith, String.toList_append] at h
  exact List.prefix_or_prefix_of_prefix h (List.prefix_append _ _)

/-- A pattern that ends with a mark, in a text with that mark at one place only. -/
theorem endsWith_of_contains_mark {p a b : String} {c : Char} (ha : c ∉ a.toList)
    (hb : c ∉ b.toList) (h : Contains (p ++ String.singleton c) (a ++ String.singleton c ++ b)) :
    EndsWith p a := by
  obtain ⟨s, t, hst⟩ := h
  have hsplit : a.toList ++ c :: b.toList = (s ++ p.toList) ++ c :: t := by
    simpa [String.toList_append] using hst.symm
  rw [List.append_cons_inj_of_notMem ha hb] at hsplit
  exact ⟨s, hsplit.1.symm⟩

/-- Numbers are written with digits. -/
theorem notMem_toDigits {c : Char} (hc : c.isDigit = false) (n : Nat) : c ∉ Nat.toDigits 10 n := by
  intro h
  have hdigit := Nat.isDigit_of_mem_toDigits (by decide) (by decide) h
  rw [hc] at hdigit
  cases hdigit

/-! ## Words -/

/-- `s.split(" ", 2)[1]`, the word between the first two blanks. -/
def secondWord (s : String) : String :=
  String.ofList (((s.toList.dropWhile (· ≠ ' ')).drop 1).takeWhile (· ≠ ' '))

theorem takeWhile_append_blank {w : List Char} (hw : ' ' ∉ w) (rest : List Char) :
    (w ++ ' ' :: rest).takeWhile (· ≠ ' ') = w := by
  have hword : ∀ c ∈ w, decide (c ≠ ' ') = true := by
    intro c hc
    exact decide_eq_true fun heq => hw (heq ▸ hc)
  rw [List.takeWhile_append_of_pos hword]
  simp

theorem dropWhile_append_blank {w : List Char} (hw : ' ' ∉ w) (rest : List Char) :
    (w ++ ' ' :: rest).dropWhile (· ≠ ' ') = ' ' :: rest := by
  have hword : ∀ c ∈ w, decide (c ≠ ' ') = true := by
    intro c hc
    exact decide_eq_true fun heq => hw (heq ▸ hc)
  rw [List.dropWhile_append_of_pos hword]
  simp

/-- The second word of a line that starts with two words. -/
theorem secondWord_append {v w : String} (hv : ' ' ∉ v.toList) (hw : ' ' ∉ w.toList)
    (rest : String) : secondWord (v ++ " " ++ w ++ " " ++ rest) = w := by
  have htext : (v ++ " " ++ w ++ " " ++ rest).toList =
      v.toList ++ ' ' :: (w.toList ++ ' ' :: rest.toList) := by
    simp [String.toList_append]
  rw [secondWord, htext, dropWhile_append_blank hv, List.drop_succ_cons, List.drop_zero,
    takeWhile_append_blank hw, String.ofList_toList]

/-- A line ends with a given last word only if that is its last word. -/
theorem eq_of_endsWith_word {a v w : String} (hv : ' ' ∉ v.toList) (hw : ' ' ∉ w.toList)
    (h : EndsWith (" " ++ v) (a ++ " " ++ w)) : w = v := by
  obtain ⟨t, ht⟩ := h
  have hsplit : t ++ ' ' :: v.toList = a.toList ++ ' ' :: w.toList := by
    simpa [String.toList_append] using ht
  -- both sides are cut at their last blank
  have hreverse := congrArg List.reverse hsplit
  simp only [List.reverse_append, List.reverse_cons, List.append_assoc, List.singleton_append]
    at hreverse
  have hwords := congrArg (List.takeWhile (· ≠ ' ')) hreverse
  rw [takeWhile_append_blank (fun hmem => hv (List.mem_reverse.mp hmem)),
    takeWhile_append_blank (fun hmem => hw (List.mem_reverse.mp hmem))] at hwords
  exact String.ext (List.reverse_injective hwords).symm

/-! ## Stripping -/

/-- `c.isspace()` -/
def isSpace (c : Char) : Bool :=
  (9 ≤ c.toNat && c.toNat ≤ 13) || (28 ≤ c.toNat && c.toNat ≤ 32) || c.toNat = 133 ||
    c.toNat = 160 || c.toNat = 5760 || (8192 ≤ c.toNat && c.toNat ≤ 8202) || c.toNat = 8232 ||
    c.toNat = 8233 || c.toNat = 8239 || c.toNat = 8287 || c.toNat = 12288

/-- `s.strip()` -/
def strip (s : String) : String :=
  String.ofList ((s.toList.dropWhile isSpace).reverse.dropWhile isSpace).reverse

/-- `s.removeprefix(p)` -/
def removePrefix (p s : String) : String :=
  if StartsWith p s then String.ofList (s.toList.drop p.length) else s

/-! ## Lines -/

/-- The characters at which `str.splitlines` ends a line. -/
def isLineBoundary (c : Char) : Bool :=
  (10 ≤ c.toNat && c.toNat ≤ 13) || (28 ≤ c.toNat && c.toNat ≤ 30) || c.toNat = 133 ||
    c.toNat = 8232 || c.toNat = 8233

/-- The lines of a text of which `current` has been read since the last end of a line. -/
def splitLinesFrom (current : List Char) : List Char → List (List Char)
  | [] => if current = [] then [] else [current.reverse]
  | '\r' :: '\n' :: rest => current.reverse :: splitLinesFrom [] rest
  | c :: rest =>
      if isLineBoundary c then current.reverse :: splitLinesFrom [] rest
      else splitLinesFrom (c :: current) rest

/-- `s.splitlines()` -/
def splitLines (s : List Char) : List (List Char) := splitLinesFrom [] s

theorem splitLinesFrom_boundary {c : Char} (hc : isLineBoundary c = true) (hreturn : c ≠ '\r')
    (current rest : List Char) :
    splitLinesFrom current (c :: rest) = current.reverse :: splitLinesFrom [] rest := by
  rw [splitLinesFrom, if_pos hc]
  rintro rest' rfl
  exact absurd rfl hreturn

theorem splitLinesFrom_append {line : List Char} (h : ∀ c ∈ line, isLineBoundary c = false)
    (current rest : List Char) :
    splitLinesFrom current (line ++ rest) = splitLinesFrom (line.reverse ++ current) rest := by
  induction line generalizing current with
  | nil => rfl
  | cons c line ih =>
      have hc := h c List.mem_cons_self
      have hreturn : c ≠ '\r' := by
        rintro rfl
        cases hc
      rw [List.cons_append, splitLinesFrom, if_neg (by rw [hc]; exact Bool.false_ne_true),
        ih (fun other hother => h other (List.mem_cons_of_mem _ hother)), List.reverse_cons,
        List.append_assoc, List.singleton_append]
      rintro rest' rfl
      exact absurd rfl hreturn

/-- A line without a boundary, and the boundary that ends it. -/
theorem splitLines_append {line : List Char} (h : ∀ c ∈ line, isLineBoundary c = false) {c : Char}
    (hc : isLineBoundary c = true) (hreturn : c ≠ '\r') (rest : List Char) :
    splitLines (line ++ c :: rest) = line :: splitLines rest := by
  rw [splitLines, splitLinesFrom_append h, splitLinesFrom_boundary hc hreturn, List.append_nil,
    List.reverse_reverse]
  rfl

/-! ## Sets of texts -/

/-- `sorted(texts)` -/
def sorted (texts : Finset String) : List String := texts.sort (· ≤ ·)

theorem nodup_sorted (texts : Finset String) : (sorted texts).Nodup := Finset.sort_nodup _ _

end Basis.Text
