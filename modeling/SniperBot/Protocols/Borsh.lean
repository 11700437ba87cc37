import SniperBot.Basis.Dict

/-!
# Borsh values described by an IDL

`_Cursor`, `_decode_struct`, `_decode_type`, `_decode_primitive` and `_base58_encode`
(`protocols/anchor.py`). A decoder reads from the front of the remaining bytes and raises an
`AnchorDecodeError`. Type definitions may refer to each other by name; the depth to which such
references are followed is bounded, as the interpreter's recursion limit bounds it.
-/

namespace SniperBot.Protocols

open Basis

/-! ## Types and values -/

/-- A type of the IDL. -/
inductive IdlType
  | primitive (name : String)
  | option (item : IdlType)
  | vec (item : IdlType)
  | array (item : IdlType) (length : Int)
  | defined (name : String)
  | unsupported (shown : String)
  deriving DecidableEq, Repr

/-- An entry of `types`. -/
inductive TypeDefinition
  | struct (fields : List (String × IdlType))
  | enum (variants : List String)
  | other (kind : String)
  deriving Repr

/-- A decoded value; the fields of a record stand in the order of their first occurrence. -/
inductive Value
  | none
  | int (n : Int)
  | bool (b : Bool)
  | text (s : String)
  | list (items : List Value)
  | record (fields : List (String × Value))
  deriving Repr

/-! ## Errors -/

/-- `AnchorDecodeError`, and what leaves the decoder when references never end. -/
inductive AnchorDecodeError
  | truncated
  | invalidBase64
  | shortPayload
  | unknownDiscriminator (programId : String) (discriminator : List UInt8)
  | missingStruct (name : String)
  | trailingBytes (name : String) (count : Nat)
  | unsupportedType (shown : String)
  | optionTag
  | vectorLength
  | missingType (name : String)
  | enumVariant (name : String)
  | unsupportedKind (name : String)
  | invalidBool
  | stringLength
  | invalidUtf8
  | unsupportedPrimitive (name : String)
  | recursion
  deriving DecidableEq, Repr

/-- `bytes.hex()` -/
def hexText (bytes : List UInt8) : String :=
  String.ofList (bytes.flatMap fun b =>
    [Nat.digitChar (b.toNat / 16), Nat.digitChar (b.toNat % 16)])

def AnchorDecodeError.message : AnchorDecodeError → String
  | .truncated => "truncated Anchor event payload"
  | .invalidBase64 => "invalid base64 in Anchor event log"
  | .shortPayload => "Anchor event payload is shorter than discriminator"
  | .unknownDiscriminator programId discriminator =>
      "unknown Anchor event discriminator for " ++ programId ++ ": " ++ hexText discriminator
  | .missingStruct name => "missing struct definition for Anchor event " ++ name
  | .trailingBytes name count =>
      "Anchor event " ++ name ++ " has " ++ toString count ++ " unexpected trailing bytes"
  | .unsupportedType shown => "unsupported IDL type: " ++ shown
  | .optionTag => "invalid Borsh option tag"
  | .vectorLength => "unreasonable Borsh vector length"
  | .missingType name => "missing IDL type definition " ++ name
  | .enumVariant name => "invalid enum variant for " ++ name
  | .unsupportedKind name => "unsupported defined type kind for " ++ name
  | .invalidBool => "invalid Borsh bool"
  | .stringLength => "unreasonable Borsh string length"
  | .invalidUtf8 => "invalid UTF-8 Borsh string"
  | .unsupportedPrimitive name => "unsupported primitive IDL type " ++ name
  | .recursion => "maximum recursion depth exceeded"

/-! ## Base58 -/

def base58Alphabet : List Char :=
  "123456789ABCDEFGHJKLMNPQRSTUVWXYZabcdefghijkmnopqrstuvwxyz".toList

/-- The digits of a number, least significant first; `fuel` bounds their count. -/
def base58Digits : Nat → Nat → List Char
  | 0, _ => []
  | fuel + 1, n =>
      if n = 0 then [] else base58Alphabet.getD (n % 58) '1' :: base58Digits fuel (n / 58)

/-- `_base58_encode` -/
def base58Encode (payload : List UInt8) : String :=
  let leadingZeroes := (payload.takeWhile (· = 0)).length
  let number := payload.foldl (fun n b => n * 256 + b.toNat) 0
  -- two characters cover a byte
  String.ofList (List.replicate leadingZeroes '1' ++
    (base58Digits (2 * payload.length) number).reverse)

/-! ## The cursor -/

/-- A decoder consumes bytes from the front. -/
abbrev Decoder := StateT (List UInt8) (Except AnchorDecodeError)

/-- `_Cursor.take` -/
def take (size : Nat) : Decoder (List UInt8) := do
  let payload ← get
  if size > payload.length then throw .truncated
  set (payload.drop size)
  return payload.take size

/-- An unsigned little-endian number. -/
def littleEndian (bytes : List UInt8) : Nat :=
  bytes.foldr (fun b n => b.toNat + 256 * n) 0

def unsigned (size : Nat) : Decoder Nat := do
  return littleEndian (← take size)

/-- Two's complement. -/
def signed (size : Nat) : Decoder Int := do
  let n ← unsigned size
  return if 2 * n < 256 ^ size then (n : Int) else (n : Int) - 256 ^ size

/-! ## Primitives -/

def decodePrimitive (name : String) : Decoder Value :=
  match name with
  | "u8" => return .int (← unsigned 1)
  | "i8" => return .int (← signed 1)
  | "u16" => return .int (← unsigned 2)
  | "i16" => return .int (← signed 2)
  | "u32" => return .int (← unsigned 4)
  | "i32" => return .int (← signed 4)
  | "u64" => return .int (← unsigned 8)
  | "i64" => return .int (← signed 8)
  | "u128" => return .int (← unsigned 16)
  | "i128" => return .int (← signed 16)
  | "bool" => do
      let value ← unsigned 1
      if value > 1 then throw .invalidBool
      return .bool (value = 1)
  | "pubkey" => return .text (base58Encode (← take 32))
  | "string" => do
      let length ← unsigned 4
      if length > 1000000 then throw .stringLength
      let bytes ← take length
      match String.fromUTF8? ⟨bytes.toArray⟩ with
      | some text => return .text text
      | none => throw .invalidUtf8
  | "bytes" => do
      let length ← unsigned 4
      return .text (hexText (← take length))
  | _ => throw (.unsupportedPrimitive name)

/-! ## Composite types -/

/-- A list comprehension over `range(n)`. -/
def repeatDecoder (item : Decoder Value) : Nat → Decoder (List Value)
  | 0 => return []
  | n + 1 => do
      let value ← item
      return value :: (← repeatDecoder item n)

/-- `_decode_type`, with `defined` for the types that are referred to by name. -/
def decodeType (defined : String → Decoder Value) : IdlType → Decoder Value
  | .primitive name => decodePrimitive name
  | .option item => do
      let present ← unsigned 1
      if present = 0 then return .none
      if present ≠ 1 then throw .optionTag
      decodeType defined item
  | .vec item => do
      let length ← unsigned 4
      if length > 100000 then throw .vectorLength
      return .list (← repeatDecoder (decodeType defined item) length)
  | .array item length => return .list (← repeatDecoder (decodeType defined item) length.toNat)
  | .defined name => defined name
  | .unsupported shown => throw (.unsupportedType shown)

/-- A dictionary comprehension over the fields of a struct. -/
def decodeFields (defined : String → Decoder Value) :
    List (String × IdlType) → List (String × Value) → Decoder (List (String × Value))
  | [], fields => return fields
  | (name, type) :: rest, fields => do
      let value ← decodeType defined type
      decodeFields defined rest (Dict.put fields name value)

/-- The `defined` branch of `_decode_type`. -/
def decodeDefined (types : Dict String TypeDefinition) : Nat → String → Decoder Value
  | 0, _ => throw .recursion
  | depth + 1, name =>
      match types.get? name with
      | none => throw (.missingType name)
      | some (.struct fields) =>
          return .record (← decodeFields (decodeDefined types depth) fields [])
      | some (.enum variants) => do
          let index ← unsigned 1
          match variants[index]? with
          | some variant => return .text variant
          | none => throw (.enumVariant name)
      | some (.other _) => throw (.unsupportedKind name)

/-- `_decode_struct` -/
def decodeStruct (types : Dict String TypeDefinition) (depth : Nat) (name : String)
    (payload : List UInt8) : Except AnchorDecodeError (List (String × Value)) :=
  match types.get? name with
  | some (.struct fields) => do
      let (values, rest) ← (decodeFields (decodeDefined types depth) fields []).run payload
      if rest ≠ [] then throw (.trailingBytes name rest.length)
      return values
  | _ => throw (.missingStruct name)

end SniperBot.Protocols
