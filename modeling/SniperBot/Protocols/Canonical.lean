import SniperBot.Basis.Formats
import SniperBot.Protocols.Borsh

/-!
# The canonical Borsh encodings

`Canonical types type value word` says that the word is a canonical encoding of a decoded value.
It is defined by the grammar alone. The decoder of a primitive type is shown to read exactly the
canonical encodings.
-/

namespace SniperBot.Protocols

open Basis

/-! ## Numbers -/

/-- The little-endian bytes of a number. -/
def littleEndianBytes : Nat → Nat → List UInt8
  | 0, _ => []
  | size + 1, n => UInt8.ofNat (n % 256) :: littleEndianBytes size (n / 256)

@[simp] theorem littleEndianBytes_length (size n : Nat) :
    (littleEndianBytes size n).length = size := by
  induction size generalizing n with
  | zero => rfl
  | succ size ih => rw [littleEndianBytes, List.length_cons, ih]

theorem littleEndian_cons (b : UInt8) (bytes : List UInt8) :
    littleEndian (b :: bytes) = b.toNat + 256 * littleEndian bytes := rfl

theorem littleEndian_lt (bytes : List UInt8) : littleEndian bytes < 256 ^ bytes.length := by
  induction bytes with
  | nil => decide
  | cons b bytes ih =>
      have hb : b.toNat < 256 := b.toNat_lt
      rw [littleEndian_cons, List.length_cons, pow_succ]
      omega

theorem littleEndian_bytes {size n : Nat} (h : n < 256 ^ size) :
    littleEndian (littleEndianBytes size n) = n := by
  induction size generalizing n with
  | zero =>
      rw [pow_zero] at h
      exact (Nat.lt_one_iff.mp h).symm
  | succ size ih =>
      rw [pow_succ] at h
      have hbyte : (UInt8.ofNat (n % 256)).toNat = n % 256 :=
        UInt8.toNat_ofNat_of_lt' (Nat.mod_lt _ (by decide))
      rw [littleEndianBytes, littleEndian_cons, hbyte, ih (by omega)]
      omega

theorem littleEndianBytes_littleEndian (bytes : List UInt8) :
    littleEndianBytes bytes.length (littleEndian bytes) = bytes := by
  induction bytes with
  | nil => rfl
  | cons b bytes ih =>
      have hb : b.toNat < 256 := b.toNat_lt
      have hmod : (b.toNat + 256 * littleEndian bytes) % 256 = b.toNat := by omega
      have hdiv : (b.toNat + 256 * littleEndian bytes) / 256 = littleEndian bytes := by omega
      rw [littleEndian_cons, List.length_cons, littleEndianBytes, hmod, hdiv, ih,
        UInt8.ofNat_toNat]

/-! ## The grammar -/

/-- A word of a given length, as it is. -/
def fixedFormat (size : Nat) : Format UInt8 (List UInt8) := fun bytes word =>
  bytes = word ∧ word.length = size

def unsignedFormat (size : Nat) : Format UInt8 Nat := fun n word =>
  n < 256 ^ size ∧ word = littleEndianBytes size n

/-- Two's complement. -/
def signedFormat (size : Nat) : Format UInt8 Int := fun n word =>
  -(256 ^ size : Int) ≤ 2 * n ∧ 2 * n < 256 ^ size ∧
    word = littleEndianBytes size (n % 256 ^ size).toNat

/-- The canonical encodings of the values of a primitive type. -/
def primitiveFormat (name : String) : Format UInt8 Value :=
  match name with
  | "u8" => (unsignedFormat 1).map fun n : Nat => .int n
  | "i8" => (signedFormat 1).map fun n => .int n
  | "u16" => (unsignedFormat 2).map fun n : Nat => .int n
  | "i16" => (signedFormat 2).map fun n => .int n
  | "u32" => (unsignedFormat 4).map fun n : Nat => .int n
  | "i32" => (signedFormat 4).map fun n => .int n
  | "u64" => (unsignedFormat 8).map fun n : Nat => .int n
  | "i64" => (signedFormat 8).map fun n => .int n
  | "u128" => (unsignedFormat 16).map fun n : Nat => .int n
  | "i128" => (signedFormat 16).map fun n => .int n
  | "bool" => fun value word => ∃ b : Bool, value = .bool b ∧ word = [if b then 1 else 0]
  | "pubkey" => fun value word => word.length = 32 ∧ value = .text (base58Encode word)
  | "string" => fun value word => ∃ text bytes, value = .text text ∧
      text.toUTF8 = ⟨bytes.toArray⟩ ∧ bytes.length ≤ 1000000 ∧
        word = littleEndianBytes 4 bytes.length ++ bytes
  | "bytes" => fun value word => ∃ bytes, value = .text (hexText bytes) ∧
      bytes.length < 256 ^ 4 ∧ word = littleEndianBytes 4 bytes.length ++ bytes
  | _ => .empty

/-- A dictionary that is filled in order. -/
def toRecord (entries : List (String × Value)) : List (String × Value) :=
  entries.foldl (fun record entry => Dict.put record entry.1 entry.2) []

/-- The word is a canonical encoding of the value, at the type. -/
inductive Canonical (types : Dict String TypeDefinition) : IdlType → Format UInt8 Value
  | primitive {name : String} {value : Value} {word : List UInt8}
      (h : primitiveFormat name value word) : Canonical types (.primitive name) value word
  | absent {item : IdlType} : Canonical types (.option item) .none [0]
  | present {item : IdlType} {value : Value} {word : List UInt8}
      (h : Canonical types item value word) : Canonical types (.option item) value (1 :: word)
  | vec {item : IdlType} {parts : List (Value × List UInt8)} (hlength : parts.length ≤ 100000)
      (h : ∀ part ∈ parts, Canonical types item part.1 part.2) :
      Canonical types (.vec item) (.list (parts.map Prod.fst))
        (littleEndianBytes 4 parts.length ++ (parts.map Prod.snd).flatten)
  | array {item : IdlType} {length : Int} {parts : List (Value × List UInt8)}
      (hlength : parts.length = length.toNat)
      (h : ∀ part ∈ parts, Canonical types item part.1 part.2) :
      Canonical types (.array item length) (.list (parts.map Prod.fst))
        (parts.map Prod.snd).flatten
  | struct {name : String} {fields : List (String × IdlType)}
      {parts : List (Value × List UInt8)}
      (hname : types.get? name = some (.struct fields)) (hlength : parts.length = fields.length)
      (h : ∀ entry ∈ fields.zip parts, Canonical types entry.1.2 entry.2.1 entry.2.2) :
      Canonical types (.defined name)
        (.record (toRecord ((fields.map Prod.fst).zip (parts.map Prod.fst))))
        (parts.map Prod.snd).flatten
  | enum {name variant : String} {variants : List String} {index : Nat}
      (hname : types.get? name = some (.enum variants))
      (hvariant : variants[index]? = some variant) (hindex : index < 256) :
      Canonical types (.defined name) (.text variant) [UInt8.ofNat index]

/-! ## The readers are exact -/

/-- The errors of the decoder, `RecursionError` excluded. -/
def Raised (e : AnchorDecodeError) : Prop := e ≠ .recursion

theorem take_run (size : Nat) (input : List UInt8) :
    (take size).run input =
      if size > input.length then .error .truncated
      else .ok (input.take size, input.drop size) := by
  by_cases hsize : size > input.length
  · rw [if_pos hsize, take, StateT.run_bind, StateT.run_get]
    exact congrArg (fun reader : Decoder (List UInt8) => reader.run input) (if_pos hsize)
  · rw [if_neg hsize, take, StateT.run_bind, StateT.run_get]
    exact congrArg (fun reader : Decoder (List UInt8) => reader.run input) (if_neg hsize)

theorem take_exact (size : Nat) : Exact Raised (take size) (fixedFormat size) where
  run_ok input value rest := by
    rw [take_run]
    constructor
    · intro h
      split at h
      · cases h
      · cases h
        exact ⟨input.take size, ⟨rfl, List.length_take_of_le (by omega)⟩,
          List.take_append_drop size input⟩
    · rintro ⟨word, ⟨rfl, rfl⟩, rfl⟩
      rw [if_neg (by rw [List.length_append]; omega), List.take_left, List.drop_left]
  run_error input e h := by
    rw [take_run] at h
    split at h
    · cases h
      exact nofun
    · cases h

theorem unsigned_exact (size : Nat) : Exact Raised (unsigned size) (unsignedFormat size) := by
  refine ((take_exact size).map littleEndian).congr fun n word => ?_
  constructor
  · rintro ⟨hn, rfl⟩
    exact ⟨_, ⟨rfl, littleEndianBytes_length size n⟩, littleEndian_bytes hn⟩
  · rintro ⟨_, ⟨rfl, rfl⟩, rfl⟩
    exact ⟨littleEndian_lt _, (littleEndianBytes_littleEndian _).symm⟩

/-- A residue below the modulus is the number itself or one modulus above it. -/
theorem emod_of_signed {n modulus : Int} (hlow : -modulus ≤ 2 * n) (hhigh : 2 * n < modulus) :
    n % modulus = if 0 ≤ n then n else n + modulus := by
  split
  · exact Int.emod_eq_of_lt (by omega) (by omega)
  · rw [← Int.add_emod_right, Int.emod_eq_of_lt (by omega) (by omega)]

theorem signed_exact (size : Nat) : Exact Raised (signed size) (signedFormat size) := by
  refine ((unsigned_exact size).map fun n : Nat =>
    if 2 * n < 256 ^ size then (n : Int) else (n : Int) - 256 ^ size).congr fun n word => ?_
  have hcast : ((256 ^ size : Nat) : Int) = 256 ^ size := Int.natCast_pow 256 size
  unfold signedFormat
  generalize (256 ^ size : Int) = modulus at *
  generalize hsize : (256 ^ size : Nat) = bound at *
  subst hcast
  constructor
  · rintro ⟨hlow, hhigh, rfl⟩
    rw [emod_of_signed hlow hhigh]
    refine ⟨_, ⟨?_, rfl⟩, ?_⟩
    · rw [hsize]
      split <;> omega
    · beta_reduce
      split <;> split <;> omega
  · rintro ⟨m, ⟨hm, rfl⟩, rfl⟩
    rw [hsize] at hm
    have hbounds : -(bound : Int) ≤ 2 * (if 2 * m < bound then (m : Int) else m - bound) ∧
        2 * (if 2 * m < bound then (m : Int) else m - bound) < bound := by
      split <;> omega
    refine ⟨hbounds.1, hbounds.2, congrArg (littleEndianBytes size) ?_⟩
    rw [emod_of_signed hbounds.1 hbounds.2]
    split <;> split <;> omega

theorem bool_exact : Exact Raised (decodePrimitive "bool") (primitiveFormat "bool") := by
  have herror : Raised .invalidBool := nofun
  refine ((unsigned_exact 1).bind fun n =>
    Exact.guard herror _ fun _ => Exact.pure (Value.bool (n = 1))).congr fun value word => ?_
  constructor
  · rintro ⟨b, rfl, rfl⟩
    cases b with
    | false => exact ⟨0, [0], [], ⟨by decide, rfl⟩, ⟨by decide, rfl, rfl⟩, rfl⟩
    | true => exact ⟨1, [1], [], ⟨by decide, rfl⟩, ⟨by decide, rfl, rfl⟩, rfl⟩
  · rintro ⟨n, _, _, ⟨-, rfl⟩, ⟨hn, rfl, rfl⟩, rfl⟩
    refine ⟨_, rfl, ?_⟩
    rcases Nat.le_one_iff_eq_zero_or_eq_one.mp (Nat.le_of_not_lt hn) with rfl | rfl
    · rfl
    · rfl

/-- The bytes are read as UTF-8. -/
theorem text_exact (bytes : List UInt8) :
    Exact Raised (match String.fromUTF8? ⟨bytes.toArray⟩ with
      | some text => return Value.text text
      | none => throw .invalidUtf8 : Decoder Value)
      (fun value word => ∃ text : String, value = .text text ∧
        text.toUTF8 = ⟨bytes.toArray⟩ ∧ word = []) := by
  unfold String.fromUTF8?
  split
  · rename_i text htext
    split at htext
    · cases htext
      refine (Exact.pure _).congr fun value word => ?_
      constructor
      · rintro ⟨other, rfl, hother, rfl⟩
        exact ⟨congrArg Value.text (String.toByteArray_inj.mp hother), rfl⟩
      · rintro ⟨rfl, rfl⟩
        exact ⟨_, rfl, rfl, rfl⟩
    · cases htext
  · rename_i htext
    split at htext
    · cases htext
    · rename_i hinvalid
      have herror : Raised .invalidUtf8 := nofun
      refine (Exact.throw herror).congr fun value word => ⟨?_, fun h => h.elim⟩
      rintro ⟨text, -, htext, -⟩
      exact hinvalid (htext ▸ text.isValidUTF8)

theorem string_exact : Exact Raised (decodePrimitive "string") (primitiveFormat "string") := by
  have herror : Raised .stringLength := nofun
  refine ((unsigned_exact 4).bind fun length => Exact.guard herror _ fun _ =>
    (take_exact length).bind text_exact).congr fun value word => ?_
  constructor
  · rintro ⟨text, bytes, rfl, htext, hlength, rfl⟩
    exact ⟨bytes.length, _, _, ⟨by omega, rfl⟩, ⟨by omega, bytes, bytes, [], ⟨rfl, rfl⟩,
      ⟨text, rfl, htext, rfl⟩, List.append_nil _⟩, rfl⟩
  · rintro ⟨_, _, _, ⟨-, rfl⟩, ⟨hlength, bytes, _, _, ⟨rfl, rfl⟩, ⟨text, rfl, htext, rfl⟩, rfl⟩,
      rfl⟩
    exact ⟨text, bytes, rfl, htext, by omega, by rw [List.append_nil]⟩

theorem bytes_exact : Exact Raised (decodePrimitive "bytes") (primitiveFormat "bytes") := by
  refine ((unsigned_exact 4).bind fun length => (take_exact length).map
    fun bytes => Value.text (hexText bytes)).congr fun value word => ?_
  constructor
  · rintro ⟨bytes, rfl, hlength, rfl⟩
    exact ⟨bytes.length, _, _, ⟨hlength, rfl⟩, ⟨bytes, ⟨rfl, rfl⟩, rfl⟩, rfl⟩
  · rintro ⟨_, _, _, ⟨hlength, rfl⟩, ⟨bytes, ⟨rfl, rfl⟩, rfl⟩, rfl⟩
    exact ⟨bytes, rfl, hlength, rfl⟩

theorem pubkey_exact : Exact Raised (decodePrimitive "pubkey") (primitiveFormat "pubkey") := by
  refine ((take_exact 32).map fun bytes => Value.text (base58Encode bytes)).congr
    fun value word => ?_
  constructor
  · rintro ⟨hlength, rfl⟩
    exact ⟨word, ⟨rfl, hlength⟩, rfl⟩
  · rintro ⟨bytes, ⟨rfl, hlength⟩, rfl⟩
    exact ⟨hlength, rfl⟩

theorem primitive_exact (name : String) :
    Exact Raised (decodePrimitive name) (primitiveFormat name) := by
  unfold decodePrimitive
  split
  · exact (unsigned_exact 1).map _
  · exact (signed_exact 1).map _
  · exact (unsigned_exact 2).map _
  · exact (signed_exact 2).map _
  · exact (unsigned_exact 4).map _
  · exact (signed_exact 4).map _
  · exact (unsigned_exact 8).map _
  · exact (signed_exact 8).map _
  · exact (unsigned_exact 16).map _
  · exact (signed_exact 16).map _
  · exact bool_exact
  · exact pubkey_exact
  · exact string_exact
  · exact bytes_exact
  · have herror : Raised (.unsupportedPrimitive name) := nofun
    refine (Exact.throw herror).congr fun value word => ?_
    unfold primitiveFormat
    split
    case h_15 => exact Iff.rfl
    all_goals contradiction

end SniperBot.Protocols
