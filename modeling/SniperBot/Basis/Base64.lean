import SniperBot.Basis.Text

/-!
# Base64

`encode` is the standard encoding with padding. `decode` is `base64.b64decode` with
`validate=True`: only characters of the alphabet, padding at the end only, and a last group that is
complete with its padding. As in the library, padding after a complete group is let through and
the unused bits of a padded group are not looked at.
-/

namespace Basis.Base64

/-- The alphabet, by value. -/
def alphabet : List Char :=
  "ABCDEFGHIJKLMNOPQRSTUVWXYZabcdefghijklmnopqrstuvwxyz0123456789+/".toList

def digit (n : Nat) : Char := alphabet.getD (n % 64) 'A'

def value? (c : Char) : Option Nat := alphabet.findIdx? (· = c)

/-! ## Encoding -/

def encodeChars : List UInt8 → List Char
  | [] => []
  | [a] => [digit (a.toNat / 4), digit (a.toNat * 16), '=', '=']
  | [a, b] => [digit (a.toNat / 4), digit (a.toNat * 16 + b.toNat / 16), digit (b.toNat * 4), '=']
  | a :: b :: c :: rest =>
      digit (a.toNat / 4) :: digit (a.toNat * 16 + b.toNat / 16) ::
        digit (b.toNat * 4 + c.toNat / 64) :: digit c.toNat :: encodeChars rest

def encode (bytes : List UInt8) : String := String.ofList (encodeChars bytes)

theorem digit_mem (n : Nat) : digit n ∈ alphabet := by
  have hlength : alphabet.length = 64 := by decide
  have hn : n % 64 < alphabet.length := by
    rw [hlength]
    omega
  rw [digit, List.getD, List.getElem?_eq_getElem hn, Option.getD_some]
  exact List.getElem_mem hn

theorem mem_encodeChars {bytes : List UInt8} {c : Char} (h : c ∈ encodeChars bytes) :
    c ∈ alphabet ∨ c = '=' := by
  induction bytes using encodeChars.induct with
  | case1 => cases h
  | case2 a =>
      simp only [encodeChars, List.mem_cons, List.not_mem_nil, or_false] at h
      rcases h with rfl | rfl | h | h
      · exact Or.inl (digit_mem _)
      · exact Or.inl (digit_mem _)
      · exact Or.inr h
      · exact Or.inr h
  | case3 a b =>
      simp only [encodeChars, List.mem_cons, List.not_mem_nil, or_false] at h
      rcases h with rfl | rfl | rfl | h
      · exact Or.inl (digit_mem _)
      · exact Or.inl (digit_mem _)
      · exact Or.inl (digit_mem _)
      · exact Or.inr h
  | case4 a b c' rest ih =>
      simp only [encodeChars, List.mem_cons] at h
      rcases h with rfl | rfl | rfl | rfl | h
      · exact Or.inl (digit_mem _)
      · exact Or.inl (digit_mem _)
      · exact Or.inl (digit_mem _)
      · exact Or.inl (digit_mem _)
      · exact ih h

theorem length_encodeChars (bytes : List UInt8) : 4 ∣ (encodeChars bytes).length := by
  induction bytes using encodeChars.induct with
  | case1 => simp [encodeChars]
  | case2 a => simp [encodeChars]
  | case3 a b => simp [encodeChars]
  | case4 a b c rest ih =>
      simp only [encodeChars, List.length_cons]
      omega

/-- An encoding has none of the characters outside the alphabet. -/
theorem notMem_encode {c : Char} (hc : c ∉ alphabet) (hpad : c ≠ '=') (bytes : List UInt8) :
    c ∉ (encode bytes).toList := by
  rw [encode, String.toList_ofList]
  intro h
  exact (mem_encodeChars h).elim hc hpad

/-! ## Decoding -/

/-- The bytes of a group of two to four values. -/
def groupBytes : List Nat → List UInt8
  | [a, b] => [UInt8.ofNat (a * 4 + b / 16)]
  | [a, b, c] => [UInt8.ofNat (a * 4 + b / 16), UInt8.ofNat (b * 16 + c / 4)]
  | [a, b, c, d] =>
      [UInt8.ofNat (a * 4 + b / 16), UInt8.ofNat (b * 16 + c / 4), UInt8.ofNat (c * 64 + d)]
  | _ => []

/-- The loop of `a2b_base64`: the open group, its padding so far, and whether padding has
started. -/
def decodeChars (group : List Nat) (pads : Nat) (padding : Bool) :
    List Char → Option (List UInt8)
  | [] => if group = [] then some [] else none
  | c :: rest =>
      if c = '=' then
        if 2 ≤ group.length ∧ 4 ≤ group.length + pads + 1 then
          if rest = [] then some (groupBytes group) else none
        else decodeChars group (if 2 ≤ group.length then pads + 1 else pads) true rest
      else
        match value? c with
        | none => none
        | some v =>
            if padding then none
            else if group.length = 3 then
              (decodeChars [] 0 false rest).map (groupBytes (group ++ [v]) ++ ·)
            else decodeChars (group ++ [v]) 0 false rest

/-- `base64.b64decode(s, validate=True)` -/
def decode (s : String) : Option (List UInt8) :=
  if s.toList.head? = some '=' then none else decodeChars [] 0 false s.toList

example : decode "QUI=" = some [65, 66] ∧ decode "QUJD=" = some [65, 66, 67] ∧
    decode "QQ=" = none ∧ decode "QQ===" = none ∧ decode "QQ==QUJD" = none := by decide

end Basis.Base64
