import SniperBot.Basis.Decimal
import SniperBot.Basis.Json
import SniperBot.Basis.Ranking
import Mathlib.Data.String.Basic

/-!
# The text of a JSON value

`json.dumps` with separators `,` and `:` and ASCII output: a character outside of ASCII is written
as one or two `\u` escapes. The text of a value, followed by something that no number can go on
with, determines the value and what follows (`characters_append_inj`). With sorted keys the fields of
an object are still found under their keys (`sortKeys_field`).
-/

namespace Basis

namespace Json

/-! ## Strings -/

def hex4 (n : Nat) : List Char :=
  [(n / 4096 % 16).digitChar, (n / 256 % 16).digitChar, (n / 16 % 16).digitChar,
    (n % 16).digitChar]

def unicodeEscape (n : Nat) : List Char := '\\' :: 'u' :: hex4 n

/-- The letter of a short escape. -/
def shortEscape (c : Char) : Option Char :=
  if c = '\"' then some '\"'
  else if c = '\\' then some '\\'
  else if c = '\n' then some 'n'
  else if c = '\r' then some 'r'
  else if c = '\t' then some 't'
  else if c.toNat = 8 then some 'b'
  else if c.toNat = 12 then some 'f'
  else none

/-- The text of a character in a string. -/
def escape (c : Char) : List Char :=
  match shortEscape c with
  | some letter => ['\\', letter]
  | none =>
      if 32 ≤ c.toNat ∧ c.toNat ≤ 126 then [c]
      else if c.toNat < 65536 then unicodeEscape c.toNat
      else unicodeEscape (55296 + (c.toNat - 65536) / 1024) ++
        unicodeEscape (56320 + (c.toNat - 65536) % 1024)

def stringCharacters (s : String) : List Char := '\"' :: (s.toList.flatMap escape ++ ['\"'])

def hexValue (c : Char) : Nat := if c.isDigit then c.toNat - 48 else c.toNat - 87

def hexNumber (a b c d : Char) : Nat :=
  ((hexValue a * 16 + hexValue b) * 16 + hexValue c) * 16 + hexValue d

/-- The character of a short escape. -/
def shortCharacter (letter : Char) : Option Char :=
  if letter = '\"' then some '\"'
  else if letter = '\\' then some '\\'
  else if letter = 'n' then some '\n'
  else if letter = 'r' then some '\r'
  else if letter = 't' then some '\t'
  else if letter = 'b' then some (Char.ofNat 8)
  else if letter = 'f' then some (Char.ofNat 12)
  else none

/-- The first character of the rest of a string, and what follows it. -/
def unescape : List Char → Option (Char × List Char)
  | '\\' :: 'u' :: a :: b :: c :: d :: rest =>
      let high := hexNumber a b c d
      if 55296 ≤ high ∧ high < 56320 then
        match rest with
        | _ :: _ :: a :: b :: c :: d :: rest =>
            some (Char.ofNat (65536 + (high - 55296) * 1024 + (hexNumber a b c d - 56320)), rest)
        | _ => none
      else some (Char.ofNat high, rest)
  | '\\' :: letter :: rest => (shortCharacter letter).map (·, rest)
  | c :: rest => if c = '\"' then none else some (c, rest)
  | [] => none

theorem hexValue_digitChar : ∀ n < 16, hexValue n.digitChar = n := by decide

theorem hexNumber_hex4 {n : Nat} (h : n < 65536) :
    hexNumber (n / 4096 % 16).digitChar (n / 256 % 16).digitChar (n / 16 % 16).digitChar
      (n % 16).digitChar = n := by
  have hdigit (m : Nat) : hexValue (m % 16).digitChar = m % 16 :=
    hexValue_digitChar _ (Nat.mod_lt _ (by decide))
  rw [hexNumber, hdigit, hdigit, hdigit, hdigit]
  omega

/-- A short escape is read back, and its letter is not the one of the long escapes. -/
theorem shortEscape_some {c letter : Char} (h : shortEscape c = some letter) :
    letter ≠ 'u' ∧ shortCharacter letter = some c := by
  unfold shortEscape at h
  split at h
  · next hc => cases h; subst hc; decide
  split at h
  · next hc => cases h; subst hc; decide
  split at h
  · next hc => cases h; subst hc; decide
  split at h
  · next hc => cases h; subst hc; decide
  split at h
  · next hc => cases h; subst hc; decide
  split at h
  · next hc =>
    cases h
    obtain rfl : c = Char.ofNat 8 := by rw [← hc, Char.ofNat_toNat]
    decide
  split at h
  · next hc =>
    cases h
    obtain rfl : c = Char.ofNat 12 := by rw [← hc, Char.ofNat_toNat]
    decide
  · cases h

theorem shortEscape_none {c : Char} (h : shortEscape c = none) : c ≠ '\"' ∧ c ≠ '\\' := by
  unfold shortEscape at h
  split at h
  · cases h
  · next hquote =>
    split at h
    · cases h
    · next hslash => exact ⟨hquote, hslash⟩

theorem unescape_unicodeEscape {n : Nat} (h : n < 65536) (hlow : ¬ (55296 ≤ n ∧ n < 56320))
    (rest : List Char) : unescape (unicodeEscape n ++ rest) = some (Char.ofNat n, rest) := by
  simp only [unicodeEscape, hex4, List.cons_append, List.nil_append, unescape, hexNumber_hex4 h,
    if_neg hlow]

theorem unescape_surrogates {n m : Nat} (hn : n < 1024) (hm : m < 1024) (rest : List Char) :
    unescape (unicodeEscape (55296 + n) ++ unicodeEscape (56320 + m) ++ rest) =
      some (Char.ofNat (65536 + n * 1024 + m), rest) := by
  have hhigh : 55296 ≤ 55296 + n ∧ 55296 + n < 56320 := by omega
  simp only [unicodeEscape, hex4, List.cons_append, List.nil_append, unescape,
    hexNumber_hex4 (show 55296 + n < 65536 by omega),
    hexNumber_hex4 (show 56320 + m < 65536 by omega), if_pos hhigh, Nat.add_sub_cancel_left]

theorem unescape_escape (c : Char) (rest : List Char) :
    unescape (escape c ++ rest) = some (c, rest) := by
  rw [escape]
  cases hshort : shortEscape c with
  | some letter =>
      obtain ⟨hletter, hback⟩ := shortEscape_some hshort
      simp only [List.cons_append, List.nil_append]
      rw [unescape, hback]
      · rfl
      · intro a b c d rest' heq
        exact absurd heq hletter
  | none =>
      obtain ⟨hquote, hslash⟩ := shortEscape_none hshort
      have hvalid := c.valid
      simp only [UInt32.isValidChar, Nat.isValidChar] at hvalid
      have htoNat : c.val.toNat = c.toNat := rfl
      dsimp only
      split
      · simp only [List.cons_append, List.nil_append]
        rw [unescape, if_neg hquote]
        · rintro a b c' d rest' rfl
          exact absurd rfl hslash
        · rintro letter rest' rfl
          exact absurd rfl hslash
      · split
        · next h =>
          rw [unescape_unicodeEscape h (by omega), Char.ofNat_toNat]
        · next h =>
          rw [unescape_surrogates (by omega) (by omega)]
          have heq : 65536 + (c.toNat - 65536) / 1024 * 1024 + (c.toNat - 65536) % 1024 =
              c.toNat := by omega
          rw [heq, Char.ofNat_toNat]

/-- The text of a string determines the string and what follows. -/
theorem escapes_append_inj {s t r r' : List Char}
    (h : s.flatMap escape ++ '\"' :: r = t.flatMap escape ++ '\"' :: r') : s = t ∧ r = r' := by
  have hend (rest : List Char) : unescape ('\"' :: rest) = none := rfl
  induction s generalizing t with
  | nil =>
      cases t with
      | nil => exact ⟨rfl, List.tail_eq_of_cons_eq h⟩
      | cons c t =>
          have hread := congrArg unescape h
          rw [List.flatMap_cons, List.append_assoc, unescape_escape] at hread
          exact absurd hread (by rw [List.flatMap_nil, List.nil_append, hend]; nofun)
  | cons c s ih =>
      have hread := congrArg unescape h
      rw [List.flatMap_cons, List.append_assoc, unescape_escape] at hread
      cases t with
      | nil =>
          rw [List.flatMap_nil, List.nil_append, hend] at hread
          cases hread
      | cons d t =>
          rw [List.flatMap_cons, List.append_assoc, unescape_escape, Option.some.injEq,
            Prod.mk.injEq] at hread
          obtain ⟨rfl, hrest⟩ := hread
          obtain ⟨rfl, rfl⟩ := ih hrest
          exact ⟨rfl, rfl⟩

theorem stringCharacters_append_inj {s t : String} {r r' : List Char}
    (h : stringCharacters s ++ r = stringCharacters t ++ r') : s = t ∧ r = r' := by
  simp only [stringCharacters, List.cons_append, List.append_assoc, List.nil_append] at h
  obtain ⟨hs, hr⟩ := escapes_append_inj (List.tail_eq_of_cons_eq h)
  exact ⟨String.toList_inj.mp hs, hr⟩

/-! ## Values -/

def intCharacters (n : Int) : List Char :=
  (if n < 0 then ['-'] else []) ++ Nat.toDigits 10 n.natAbs

mutual

/-- The text of a value. -/
def characters : Json → List Char
  | .null => ['n', 'u', 'l', 'l']
  | .bool true => ['t', 'r', 'u', 'e']
  | .bool false => ['f', 'a', 'l', 's', 'e']
  | .int n => intCharacters n
  | .text s => stringCharacters s
  | .list items => '[' :: firstItem items
  | .object fields => '\x7b' :: firstField fields

def firstItem : List Json → List Char
  | [] => [']']
  | item :: items => characters item ++ moreItems items

def moreItems : List Json → List Char
  | [] => [']']
  | item :: items => ',' :: (characters item ++ moreItems items)

def firstField : List (String × Json) → List Char
  | [] => ['\x7d']
  | (key, value) :: fields =>
      stringCharacters key ++ ':' :: (characters value ++ moreFields fields)

def moreFields : List (String × Json) → List Char
  | [] => ['\x7d']
  | (key, value) :: fields =>
      ',' :: (stringCharacters key ++ ':' :: (characters value ++ moreFields fields))

end

/-- `json.dumps(value, separators=(",", ":"))` -/
def dumps (value : Json) : String := String.ofList value.characters

/-- The kind of a value that a text with this first character has. -/
def kindOf (c : Char) : Nat :=
  if c = 'n' then 0
  else if c = 't' then 1
  else if c = 'f' then 2
  else if c = '-' ∨ c.isDigit = true then 3
  else if c = '\"' then 4
  else if c = '[' then 5
  else if c = '\x7b' then 6
  else 7

def kind : Json → Nat
  | .null => 0
  | .bool true => 1
  | .bool false => 2
  | .int _ => 3
  | .text _ => 4
  | .list _ => 5
  | .object _ => 6

/-- No number goes on with this text. -/
def NoDigit (rest : List Char) : Prop := ∀ c ∈ rest.head?, c.isDigit = false

theorem noDigit_cons {c : Char} (h : c.isDigit = false) (rest : List Char) : NoDigit (c :: rest) := by
  rintro _ ⟨⟩
  exact h

theorem kindOf_digit {c : Char} (h : c.isDigit = true) : kindOf c = 3 := by
  have hne (d : Char) (hd : d.isDigit = false) : c ≠ d := by
    rintro rfl
    rw [h] at hd
    cases hd
  rw [kindOf, if_neg (hne _ rfl), if_neg (hne _ rfl), if_neg (hne _ rfl), if_pos (Or.inr h)]

theorem toDigits_head (n : Nat) : ∃ c rest, Nat.toDigits 10 n = c :: rest ∧ c.isDigit = true := by
  cases hdigits : Nat.toDigits 10 n with
  | nil => exact absurd hdigits Nat.toDigits_ne_nil
  | cons c rest =>
      exact ⟨c, rest, rfl, Nat.isDigit_of_mem_toDigits (by decide) (by decide)
        (hdigits ▸ List.mem_cons_self)⟩

/-- The first character of a text tells the kind of the value. -/
theorem characters_head (v : Json) : ∃ c rest, v.characters = c :: rest ∧ kindOf c = v.kind := by
  cases v with
  | null => exact ⟨_, _, rfl, rfl⟩
  | bool b => cases b <;> exact ⟨_, _, rfl, rfl⟩
  | int n =>
      obtain ⟨c, rest, hdigits, hc⟩ := toDigits_head n.natAbs
      rw [characters, intCharacters, hdigits]
      split
      · exact ⟨_, _, rfl, rfl⟩
      · exact ⟨_, _, rfl, kindOf_digit hc⟩
  | text s => exact ⟨_, _, rfl, rfl⟩
  | list items => exact ⟨_, _, rfl, rfl⟩
  | object fields => exact ⟨_, _, rfl, rfl⟩

theorem kind_eq_of_append {v w : Json} {r r' : List Char}
    (h : v.characters ++ r = w.characters ++ r') : v.kind = w.kind := by
  obtain ⟨c, rest, hv, hc⟩ := characters_head v
  obtain ⟨d, rest', hw, hd⟩ := characters_head w
  rw [hv, hw] at h
  rw [← hc, ← hd, List.head_eq_of_cons_eq h]

theorem kind_lt (v : Json) : v.kind < 7 := by
  cases v with
  | bool b => cases b <;> simp [kind]
  | _ => simp [kind]

/-- A text of a value does not start with another character. -/
theorem characters_ne {c : Char} (hc : kindOf c = 7) (v : Json) (r r' : List Char) :
    v.characters ++ r ≠ c :: r' := by
  intro h
  obtain ⟨d, rest, hv, hd⟩ := characters_head v
  rw [hv] at h
  have hlt := v.kind_lt
  rw [← hd, List.head_eq_of_cons_eq h, hc] at hlt
  omega

theorem toDigits_append_inj {n m : Nat} {r r' : List Char} (hr : NoDigit r) (hr' : NoDigit r')
    (h : Nat.toDigits 10 n ++ r = Nat.toDigits 10 m ++ r') : n = m ∧ r = r' := by
  have hdigits (n : Nat) : ∀ c ∈ Nat.toDigits 10 n, c.isDigit = true := fun _ =>
    Nat.isDigit_of_mem_toDigits (by decide) (by decide)
  obtain ⟨htake, hdrop⟩ := Decimal.takeWhile_append_stop (hdigits n) hr
  obtain ⟨htake', hdrop'⟩ := Decimal.takeWhile_append_stop (hdigits m) hr'
  rw [h, htake'] at htake
  rw [h, hdrop'] at hdrop
  have hvalue := congrArg (fun word => Nat.ofDigitChars 10 word 0) htake
  rw [Nat.ofDigitChars_ten_toDigits, Nat.ofDigitChars_ten_toDigits] at hvalue
  exact ⟨hvalue.symm, hdrop.symm⟩

theorem intCharacters_append_inj {n m : Int} {r r' : List Char} (hr : NoDigit r) (hr' : NoDigit r')
    (h : intCharacters n ++ r = intCharacters m ++ r') : n = m ∧ r = r' := by
  have hminus (k : Nat) (rest rest' : List Char) : '-' :: rest ≠ Nat.toDigits 10 k ++ rest' := by
    obtain ⟨c, others, hdigits, hc⟩ := toDigits_head k
    rw [hdigits]
    rintro ⟨⟩
    cases hc
  rw [intCharacters, intCharacters] at h
  by_cases hn : n < 0
  · by_cases hm : m < 0
    · rw [if_pos hn, if_pos hm] at h
      obtain ⟨habs, hrest⟩ := toDigits_append_inj hr hr' (List.tail_eq_of_cons_eq h)
      exact ⟨by omega, hrest⟩
    · rw [if_pos hn, if_neg hm] at h
      exact absurd h (hminus _ _ _)
  · by_cases hm : m < 0
    · rw [if_neg hn, if_pos hm] at h
      exact absurd h.symm (hminus _ _ _)
    · rw [if_neg hn, if_neg hm] at h
      obtain ⟨habs, hrest⟩ := toDigits_append_inj hr hr' h
      exact ⟨by omega, hrest⟩

theorem moreItems_noDigit (items : List Json) (r : List Char) : NoDigit (moreItems items ++ r) := by
  cases items <;> exact noDigit_cons rfl _

theorem moreFields_noDigit (fields : List (String × Json)) (r : List Char) :
    NoDigit (moreFields fields ++ r) := by
  cases fields <;> exact noDigit_cons rfl _

/-- Two values of one kind are both equal, or numbers, texts, lists or objects. -/
theorem kind_cases {v w : Json} (h : v.kind = w.kind) : v = w ∨
    (∃ n m, v = .int n ∧ w = .int m) ∨ (∃ s t, v = .text s ∧ w = .text t) ∨
    (∃ l l', v = .list l ∧ w = .list l') ∨ ∃ f f', v = .object f ∧ w = .object f' := by
  cases v with
  | bool b =>
      cases w with
      | bool b' => cases b <;> cases b' <;> simp [kind] at h <;> exact Or.inl rfl
      | _ => cases b <;> simp [kind] at h
  | _ =>
      cases w with
      | bool b' => cases b' <;> simp [kind] at h
      | _ => simp [kind] at h <;> simp

mutual

/-- The text of a value determines the value and what follows. -/
theorem characters_append_inj : ∀ (v w : Json) {r r' : List Char}, NoDigit r → NoDigit r' →
    v.characters ++ r = w.characters ++ r' → v = w ∧ r = r'
  | .list items, w, r, r', _, _, h => by
      rcases kind_cases (kind_eq_of_append h) with rfl | ⟨_, _, ⟨⟩, _⟩ | ⟨_, _, ⟨⟩, _⟩ |
        ⟨_, items', ⟨⟩, rfl⟩ | ⟨_, _, ⟨⟩, _⟩
      · exact ⟨rfl, List.append_cancel_left h⟩
      · obtain ⟨rfl, hr⟩ := firstItem_append_inj items items' (List.tail_eq_of_cons_eq h)
        exact ⟨rfl, hr⟩
  | .object fields, w, r, r', _, _, h => by
      rcases kind_cases (kind_eq_of_append h) with rfl | ⟨_, _, ⟨⟩, _⟩ | ⟨_, _, ⟨⟩, _⟩ |
        ⟨_, _, ⟨⟩, _⟩ | ⟨_, fields', ⟨⟩, rfl⟩
      · exact ⟨rfl, List.append_cancel_left h⟩
      · obtain ⟨rfl, hr⟩ := firstField_append_inj fields fields' (List.tail_eq_of_cons_eq h)
        exact ⟨rfl, hr⟩
  | .null, w, r, r', _, _, h => by
      rcases kind_cases (kind_eq_of_append h) with rfl | ⟨_, _, ⟨⟩, _⟩ | ⟨_, _, ⟨⟩, _⟩ |
        ⟨_, _, ⟨⟩, _⟩ | ⟨_, _, ⟨⟩, _⟩
      exact ⟨rfl, List.append_cancel_left h⟩
  | .bool b, w, r, r', _, _, h => by
      rcases kind_cases (kind_eq_of_append h) with rfl | ⟨_, _, ⟨⟩, _⟩ | ⟨_, _, ⟨⟩, _⟩ |
        ⟨_, _, ⟨⟩, _⟩ | ⟨_, _, ⟨⟩, _⟩
      exact ⟨rfl, List.append_cancel_left h⟩
  | .int n, w, r, r', hr, hr', h => by
      rcases kind_cases (kind_eq_of_append h) with rfl | ⟨_, m, ⟨⟩, rfl⟩ | ⟨_, _, ⟨⟩, _⟩ |
        ⟨_, _, ⟨⟩, _⟩ | ⟨_, _, ⟨⟩, _⟩
      · exact ⟨rfl, List.append_cancel_left h⟩
      · obtain ⟨rfl, hrest⟩ := intCharacters_append_inj hr hr' h
        exact ⟨rfl, hrest⟩
  | .text s, w, r, r', _, _, h => by
      rcases kind_cases (kind_eq_of_append h) with rfl | ⟨_, _, ⟨⟩, _⟩ | ⟨_, t, ⟨⟩, rfl⟩ |
        ⟨_, _, ⟨⟩, _⟩ | ⟨_, _, ⟨⟩, _⟩
      · exact ⟨rfl, List.append_cancel_left h⟩
      · obtain ⟨rfl, hrest⟩ := stringCharacters_append_inj h
        exact ⟨rfl, hrest⟩

theorem firstItem_append_inj : ∀ (items items' : List Json) {r r' : List Char},
    firstItem items ++ r = firstItem items' ++ r' → items = items' ∧ r = r'
  | [], [], _, _, h => ⟨rfl, List.tail_eq_of_cons_eq h⟩
  | [], item :: items, r, r', h => by
      rw [firstItem, firstItem, List.append_assoc] at h
      exact absurd h.symm (characters_ne rfl _ _ _)
  | item :: items, [], r, r', h => by
      rw [firstItem, firstItem, List.append_assoc] at h
      exact absurd h (characters_ne rfl _ _ _)
  | item :: items, item' :: items', r, r', h => by
      rw [firstItem, firstItem, List.append_assoc, List.append_assoc] at h
      obtain ⟨rfl, hrest⟩ := characters_append_inj item item' (moreItems_noDigit _ _)
        (moreItems_noDigit _ _) h
      obtain ⟨rfl, hr⟩ := moreItems_append_inj items items' hrest
      exact ⟨rfl, hr⟩

theorem moreItems_append_inj : ∀ (items items' : List Json) {r r' : List Char},
    moreItems items ++ r = moreItems items' ++ r' → items = items' ∧ r = r'
  | [], [], _, _, h => ⟨rfl, List.tail_eq_of_cons_eq h⟩
  | [], item :: items, r, r', h => by cases List.head_eq_of_cons_eq h
  | item :: items, [], r, r', h => by cases List.head_eq_of_cons_eq h
  | item :: items, item' :: items', r, r', h => by
      have htail := List.tail_eq_of_cons_eq h
      rw [List.append_eq, List.append_eq, List.append_assoc, List.append_assoc] at htail
      obtain ⟨rfl, hrest⟩ := characters_append_inj item item' (moreItems_noDigit _ _)
        (moreItems_noDigit _ _) htail
      obtain ⟨rfl, hr⟩ := moreItems_append_inj items items' hrest
      exact ⟨rfl, hr⟩

theorem firstField_append_inj : ∀ (fields fields' : List (String × Json)) {r r' : List Char},
    firstField fields ++ r = firstField fields' ++ r' → fields = fields' ∧ r = r'
  | [], [], _, _, h => ⟨rfl, List.tail_eq_of_cons_eq h⟩
  | [], (key, value) :: fields, r, r', h => by cases List.head_eq_of_cons_eq h
  | (key, value) :: fields, [], r, r', h => by cases List.head_eq_of_cons_eq h
  | (key, value) :: fields, (key', value') :: fields', r, r', h => by
      rw [firstField, firstField, List.append_assoc, List.append_assoc] at h
      obtain ⟨rfl, hafter⟩ := stringCharacters_append_inj h
      have htail := List.tail_eq_of_cons_eq hafter
      rw [List.append_eq, List.append_eq, List.append_assoc, List.append_assoc] at htail
      obtain ⟨rfl, hrest⟩ := characters_append_inj value value' (moreFields_noDigit _ _)
        (moreFields_noDigit _ _) htail
      obtain ⟨rfl, hr⟩ := moreFields_append_inj fields fields' hrest
      exact ⟨rfl, hr⟩

theorem moreFields_append_inj : ∀ (fields fields' : List (String × Json)) {r r' : List Char},
    moreFields fields ++ r = moreFields fields' ++ r' → fields = fields' ∧ r = r'
  | [], [], _, _, h => ⟨rfl, List.tail_eq_of_cons_eq h⟩
  | [], (key, value) :: fields, r, r', h => by cases List.head_eq_of_cons_eq h
  | (key, value) :: fields, [], r, r', h => by cases List.head_eq_of_cons_eq h
  | (key, value) :: fields, (key', value') :: fields', r, r', h => by
      have hfirst := List.tail_eq_of_cons_eq h
      rw [List.append_eq, List.append_eq, List.append_assoc, List.append_assoc] at hfirst
      obtain ⟨rfl, hafter⟩ := stringCharacters_append_inj hfirst
      have htail := List.tail_eq_of_cons_eq hafter
      rw [List.append_eq, List.append_eq, List.append_assoc, List.append_assoc] at htail
      obtain ⟨rfl, hrest⟩ := characters_append_inj value value' (moreFields_noDigit _ _)
        (moreFields_noDigit _ _) htail
      obtain ⟨rfl, hr⟩ := moreFields_append_inj fields fields' hrest
      exact ⟨rfl, hr⟩

end

theorem dumps_injective : Function.Injective dumps := by
  intro v w h
  have hcharacters : v.characters ++ [] = w.characters ++ [] := by
    rw [List.append_nil, List.append_nil]
    exact String.ofList_injective h
  have hnone : NoDigit [] := nofun
  exact (characters_append_inj v w hnone hnone hcharacters).1

/-! ## Sorted keys -/

mutual

/-- The value that `sort_keys=True` writes. -/
def sortKeys : Json → Json
  | .list items => .list (sortItems items)
  | .object fields => .object (sortedBy Prod.fst (sortFields fields))
  | value => value

def sortItems : List Json → List Json
  | [] => []
  | item :: items => sortKeys item :: sortItems items

def sortFields : List (String × Json) → List (String × Json)
  | [] => []
  | (key, value) :: fields => (key, sortKeys value) :: sortFields fields

end

theorem sortItems_eq (items : List Json) : sortItems items = items.map sortKeys := by
  induction items with
  | nil => rfl
  | cons item items ih => rw [sortItems, ih, List.map_cons]

theorem sortFields_eq (fields : List (String × Json)) :
    sortFields fields = fields.map fun field => (field.1, sortKeys field.2) := by
  induction fields with
  | nil => rfl
  | cons field fields ih => rw [sortFields, ih, List.map_cons]

theorem sortKeys_list (items : List Json) : sortKeys (.list items) = .list (items.map sortKeys) := by
  rw [sortKeys, sortItems_eq]

/-- In an object that is written like another one, the field of a key is written like there. -/
theorem sortKeys_field {fields fields' : List (String × Json)}
    (h : sortKeys (.object fields) = sortKeys (.object fields')) {key : String} {value : Json}
    (hmem : (key, value) ∈ fields) :
    ∃ value', (key, value') ∈ fields' ∧ sortKeys value = sortKeys value' := by
  rw [sortKeys, sortKeys, object.injEq, sortFields_eq, sortFields_eq] at h
  have hsorted : (key, sortKeys value) ∈
      sortedBy Prod.fst (fields.map fun field => (field.1, sortKeys field.2)) :=
    mem_sortedBy.mpr (List.mem_map.mpr ⟨_, hmem, rfl⟩)
  rw [h] at hsorted
  obtain ⟨⟨key', value'⟩, hmem', heq⟩ := List.mem_map.mp (mem_sortedBy.mp hsorted)
  obtain ⟨rfl, hvalue⟩ := Prod.mk.inj heq
  exact ⟨value', hmem', hvalue.symm⟩

/-- The same for two fields that stand at the same place. -/
theorem sortKeys_field_at {fields fields' : List (String × Json)}
    (h : sortKeys (.object fields) = sortKeys (.object fields'))
    (hkeys : (fields'.map Prod.fst).Nodup) (i : Nat) {key : String} {value value' : Json}
    (hget : fields[i]? = some (key, value)) (hget' : fields'[i]? = some (key, value')) :
    sortKeys value = sortKeys value' := by
  obtain ⟨other, hmem, heq⟩ := sortKeys_field h (List.mem_of_getElem? hget)
  have hfound := Dict.find_of_mem hkeys hmem
  rw [Dict.find_of_mem hkeys (List.mem_of_getElem? hget')] at hfound
  rw [heq, Option.some.inj hfound]

example : dumps (sortKeys (.object [("b", .list [.int (-1), .null]), ("a", .text "\"\n")])) =
    "\x7b\"a\":\"\\\"\\n\",\"b\":[-1,null]\x7d" := by decide +kernel

end Json

end Basis
