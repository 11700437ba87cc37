import SniperBot.Basis.Radix
import SniperBot.Protocols.Borsh
import SniperBot.Security.Addresses
import Mathlib.Data.List.GetD

/-!
# Two modules on base 58

`_base58_encode` of the event decoder writes the text of 32 bytes, `_decode_solana_address` of the
security check reads it. Each is a word in its base, and both keep the leading zeros and the number,
so that the texts that are read are those that are written.
-/

namespace SniperBot.Security

open Basis

/-! ## Symbols -/

/-- The symbol of a digit. -/
def symbol (d : ℕ) : Char := base58Alphabet.getD d '1'

theorem base58Value_symbol {d : ℕ} (hd : d < 58) : base58Value (symbol d) = some d := by
  have hall : ((List.range 58).all fun d => base58Value (symbol d) = some d) = true := by
    decide +kernel
  exact of_decide_eq_true (List.all_eq_true.mp hall d (List.mem_range.mpr hd))

theorem base58Value_eq_some_iff {c : Char} {d : ℕ} :
    base58Value c = some d ↔ d < 58 ∧ c = symbol d := by
  constructor
  · intro h
    obtain ⟨hlt, hget, -⟩ := List.idxOf?_eq_some_iff.mp h
    have hlength : base58Alphabet.length = 58 := by decide +kernel
    refine ⟨hlength ▸ hlt, ?_⟩
    rw [symbol, List.getD_eq_getElem _ _ hlt]
    exact hget.symm
  · rintro ⟨hlt, rfl⟩
    exact base58Value_symbol hlt

theorem mapM_base58Value_iff {text : List Char} {digits : List ℕ} :
    text.mapM base58Value = some digits ↔ (∀ d ∈ digits, d < 58) ∧ text = digits.map symbol := by
  induction text generalizing digits with
  | nil => cases digits <;> simp
  | cons c text ih =>
      rw [List.mapM_cons]
      cases digits with
      | nil => cases base58Value c <;> simp [Option.bind_eq_some_iff]
      | cons d digits =>
          simp only [Option.bind_eq_bind, Option.bind_eq_some_iff, Option.pure_def,
            Option.some.injEq, List.cons.injEq, List.map_cons, List.forall_mem_cons]
          constructor
          · rintro ⟨d', hd, rest, hrest, rfl, rfl⟩
            obtain ⟨hlt, rfl⟩ := base58Value_eq_some_iff.mp hd
            obtain ⟨hall, rfl⟩ := ih.mp hrest
            exact ⟨⟨hlt, hall⟩, rfl, rfl⟩
          · rintro ⟨⟨hlt, hall⟩, rfl, rfl⟩
            exact ⟨d, base58Value_symbol hlt, digits, ih.mpr ⟨hall, rfl⟩, rfl, rfl⟩

/-! ## The encoder -/

theorem base58Digits_eq {fuel n : ℕ} (h : n < 58 ^ fuel) :
    Protocols.base58Digits fuel n = (Nat.digits 58 n).map symbol := by
  induction fuel generalizing n with
  | zero =>
      obtain rfl : n = 0 := by simpa using h
      rfl
  | succ fuel ih =>
      unfold Protocols.base58Digits
      split_ifs with hzero
      · rw [hzero, Nat.digits_zero, List.map_nil]
      · rw [Nat.digits_def' (by norm_num) (Nat.pos_of_ne_zero hzero), List.map_cons, ih ?_]
        · rfl
        · rw [Nat.div_lt_iff_lt_mul (by norm_num)]
          rwa [pow_succ] at h

/-- The digits of the bytes. -/
def byteDigits (payload : List UInt8) : List ℕ := payload.map UInt8.toNat

theorem byteDigits_lt {payload : List UInt8} : ∀ d ∈ byteDigits payload, d < 256 := by
  intro d hd
  obtain ⟨byte, -, rfl⟩ := List.mem_map.mp hd
  exact byte.toNat_lt

theorem toList_base58Encode (payload : List UInt8) :
    (Protocols.base58Encode payload).toList =
      (word 58 (leadingZeros (byteDigits payload)) (wordNumber 256 (byteDigits payload))).map
        symbol := by
  have hnumber : payload.foldl (fun n b => n * 256 + b.toNat) 0 =
      wordNumber 256 (byteDigits payload) := by
    rw [wordNumber, byteDigits, List.foldl_map]
  have hzeros : (payload.takeWhile (· = 0)).length = leadingZeros (byteDigits payload) := by
    rw [leadingZeros, byteDigits, List.takeWhile_map, List.length_map]
    refine congrArg (fun p => (payload.takeWhile p).length) (funext fun byte => ?_)
    simp [UInt8.ext_iff]
  have hbound : wordNumber 256 (byteDigits payload) < 58 ^ (2 * payload.length) := by
    rw [wordNumber_eq]
    calc Nat.ofDigits 256 (byteDigits payload).reverse
        < 256 ^ (byteDigits payload).reverse.length :=
          Nat.ofDigits_lt_base_pow_length (by norm_num) fun d hd =>
            byteDigits_lt d (List.mem_reverse.mp hd)
      _ = 256 ^ payload.length := by rw [List.length_reverse, byteDigits, List.length_map]
      _ ≤ (58 ^ 2) ^ payload.length := Nat.pow_le_pow_left (by norm_num) _
      _ = 58 ^ (2 * payload.length) := (pow_mul 58 2 _).symm
  have hone : symbol 0 = '1' := by decide +kernel
  unfold Protocols.base58Encode
  rw [String.toList_ofList, hnumber, hzeros, base58Digits_eq hbound, word, List.map_append,
    List.map_replicate, hone, List.map_reverse]

/-! ## The decoder -/

theorem foldlM_base58Value (text : List Char) (n : ℕ) :
    text.foldlM (fun n c => do return n * 58 + (← base58Value c)) n =
      (text.mapM base58Value).map fun digits => digits.foldl (fun n d => n * 58 + d) n := by
  induction text generalizing n with
  | nil => rfl
  | cons c text ih =>
      rw [List.foldlM_cons, List.mapM_cons]
      cases base58Value c with
      | none => rfl
      | some d =>
          refine (ih _).trans ?_
          cases text.mapM base58Value <;> rfl

theorem takeWhile_one {digits : List ℕ} (hlt : ∀ d ∈ digits, d < 58) :
    ((digits.map symbol).takeWhile (· = '1')).length = leadingZeros digits := by
  have hone : ∀ d < 58, symbol d = '1' → d = 0 := by
    have hall : ((List.range 58).all fun d => !(symbol d = '1') || d = 0) = true := by
      decide +kernel
    intro d hd h
    simpa [h] using List.all_eq_true.mp hall d (List.mem_range.mpr hd)
  induction digits with
  | nil => rfl
  | cons d digits ih =>
      obtain ⟨hd, hrest⟩ := List.forall_mem_cons.mp hlt
      rw [List.map_cons, leadingZeros]
      by_cases hzero : d = 0
      · subst hzero
        rw [List.takeWhile_cons_of_pos (by decide +kernel), List.takeWhile_cons_of_pos (by simp),
          List.length_cons, List.length_cons, ih hrest, leadingZeros]
      · rw [List.takeWhile_cons_of_neg (by simpa using fun h => hzero (hone d hd h)),
          List.takeWhile_cons_of_neg (by simpa using hzero)]
        rfl

theorem byteDigits_decoded (zeros n : ℕ) :
    byteDigits (List.replicate zeros 0 ++ bigEndianBytes n) = word 256 zeros n := by
  have hsame : ∀ d ∈ Nat.digits 256 n, (UInt8.ofNat d).toNat = d := fun d hd =>
    UInt8.toNat_ofNat_of_lt (Nat.digits_lt_base (by norm_num) hd)
  rw [byteDigits, bigEndianBytes, word, List.map_append, List.map_replicate, List.map_reverse,
    List.map_map]
  refine congrArg (fun rest : List ℕ => List.replicate zeros 0 ++ rest.reverse) ?_
  exact (List.map_congr_left hsame).trans (List.map_id _)

/-- The decoder without its check for the empty text, which has no bytes anyway. -/
theorem decodeSolanaAddress_eq (text : String) :
    decodeSolanaAddress text = (text.toList.mapM base58Value).bind fun digits =>
      let decoded := List.replicate (text.toList.takeWhile (· = '1')).length 0 ++
        bigEndianBytes (wordNumber 58 digits)
      if h : decoded.length = 32 then some ⟨decoded.toArray, h⟩ else none := by
  unfold decodeSolanaAddress
  rw [foldlM_base58Value]
  by_cases hempty : text = ""
  · subst hempty
    rfl
  · dsimp only
    rw [if_neg hempty]
    cases text.toList.mapM base58Value <;> rfl

theorem decodeSolanaAddress_eq_some_iff {text : String} {bytes : Vector UInt8 32} :
    decodeSolanaAddress text = some bytes ↔
      ∃ digits, (∀ d ∈ digits, d < 58) ∧ text.toList = digits.map symbol ∧
        byteDigits bytes.toList = word 256 (leadingZeros digits) (wordNumber 58 digits) := by
  have hread : ∀ decoded : List UInt8,
      ((if h : decoded.length = 32 then some (⟨decoded.toArray, h⟩ : Vector UInt8 32) else none) =
        some bytes) ↔ byteDigits bytes.toList = byteDigits decoded := by
    intro decoded
    have hinj : Function.Injective (List.map UInt8.toNat) :=
      List.map_injective_iff.mpr fun _ _ => UInt8.toNat_inj.mp
    rw [byteDigits, byteDigits, hinj.eq_iff]
    constructor
    · intro h
      split_ifs at h
      exact congrArg Vector.toList (Option.some.inj h).symm
    · rintro rfl
      rw [dif_pos bytes.length_toList]
      rfl
  rw [decodeSolanaAddress_eq, Option.bind_eq_some_iff]
  refine exists_congr fun digits => ?_
  rw [mapM_base58Value_iff, hread, byteDigits_decoded, and_assoc]
  refine and_congr_right fun hlt => and_congr_right fun htext => ?_
  rw [htext, takeWhile_one hlt]

/-- The decoder reads 32 bytes from exactly the text that the encoder writes of them. -/
theorem decodeSolanaAddress_iff (bytes : Vector UInt8 32) (text : String) :
    decodeSolanaAddress text = some bytes ↔
      text = Protocols.base58Encode bytes.toList := by
  rw [decodeSolanaAddress_eq_some_iff, ← String.toList_inj, toList_base58Encode]
  constructor
  · rintro ⟨digits, hlt, htext, hbytes⟩
    rw [htext, hbytes, leadingZeros_word, wordNumber_word, word_number (by norm_num) hlt]
  · intro htext
    refine ⟨_, ?_, htext, ?_⟩
    · intro d hd
      rcases List.mem_append.mp hd with hzero | hdigit
      · rw [List.eq_of_mem_replicate hzero]
        norm_num
      · exact Nat.digits_lt_base (by norm_num) (List.mem_reverse.mp hdigit)
    · rw [leadingZeros_word, wordNumber_word, word_number (by norm_num) byteDigits_lt]

/-- The system program: one symbol for each zero byte. -/
example : decodeSolanaAddress "11111111111111111111111111111111" =
    some (Vector.replicate 32 0) := by decide +kernel

end SniperBot.Security
