import SniperBot.Protocols.Decoding

/-!
# Encoding a decoded value again

A decoded value has one canonical encoding when no option stands directly in an option and names
are not repeated. `None` is what an absent option is decoded to, and also a present option of an
absent one; a repeated field overwrites the first one.

`decodeStruct_canonical` puts this together with what the decoder accepts.
-/

namespace SniperBot.Protocols

open Basis

/-! ## Texts of bytes -/

/-- The number that the digits of a text stand for. -/
def base58Number (digits : List Char) : Nat :=
  digits.foldl (fun n c => n * 58 + base58Alphabet.idxOf c) 0

theorem base58Alphabet_idxOf (n : Nat) (h : n < 58) :
    base58Alphabet.idxOf (base58Alphabet.getD n '1') = n := by
  revert n
  decide

theorem base58Number_digits {fuel n : Nat} (h : n < 58 ^ fuel) :
    base58Number (base58Digits fuel n).reverse = n := by
  unfold base58Number
  rw [List.foldl_reverse]
  induction fuel generalizing n with
  | zero =>
      rw [pow_zero] at h
      exact (Nat.lt_one_iff.mp h).symm
  | succ fuel ih =>
      rw [pow_succ] at h
      rw [base58Digits]
      split
      · rename_i hn
        exact hn.symm
      · rw [List.foldr_cons, ih (by omega), base58Alphabet_idxOf _ (Nat.mod_lt _ (by decide))]
        omega

theorem base58Number_zeroes (count : Nat) (digits : List Char) :
    base58Number (List.replicate count '1' ++ digits) = base58Number digits := by
  unfold base58Number
  rw [List.foldl_append]
  congr 1
  induction count with
  | zero => rfl
  | succ count ih => exact ih

/-- The number of the payload, as the encoder computes it. -/
theorem payload_number (payload : List UInt8) :
    payload.foldl (fun n b => n * 256 + b.toNat) 0 = littleEndian payload.reverse := by
  rw [littleEndian, ← List.foldl_eq_foldr_reverse]
  refine congrArg (fun f => List.foldl f 0 payload) (funext₂ fun n b => ?_)
  omega

theorem base58Encode_inj {payload other : List UInt8} (hlength : payload.length = other.length)
    (h : base58Encode payload = base58Encode other) : payload = other := by
  have hnumber : ∀ payload : List UInt8,
      base58Number (base58Encode payload).toList = littleEndian payload.reverse := by
    intro payload
    have hbound : littleEndian payload.reverse < 58 ^ (2 * payload.length) := by
      calc littleEndian payload.reverse
          < 256 ^ payload.reverse.length := littleEndian_lt _
        _ = 256 ^ payload.length := by rw [List.length_reverse]
        _ ≤ (58 ^ 2) ^ payload.length := Nat.pow_le_pow_left (by decide) _
        _ = 58 ^ (2 * payload.length) := (pow_mul 58 2 _).symm
    unfold base58Encode
    rw [String.toList_ofList, payload_number, base58Number_zeroes, base58Number_digits hbound]
  have hreverse : payload.reverse = other.reverse := by
    rw [← littleEndianBytes_littleEndian payload.reverse,
      ← littleEndianBytes_littleEndian other.reverse, ← hnumber, ← hnumber, h,
      List.length_reverse, List.length_reverse, hlength]
  exact List.reverse_injective hreverse

theorem digitChar_inj : ∀ a < 16, ∀ b < 16, Nat.digitChar a = Nat.digitChar b → a = b := by
  decide

theorem hexText_inj {bytes others : List UInt8} (h : hexText bytes = hexText others) :
    bytes = others := by
  have hchars := String.ofList_injective h
  clear h
  induction bytes generalizing others with
  | nil =>
      cases others with
      | nil => rfl
      | cons other others => cases hchars
  | cons b bytes ih =>
      cases others with
      | nil => cases hchars
      | cons other others =>
          simp only [List.flatMap_cons, List.cons_append, List.nil_append, List.cons.injEq] at hchars
          obtain ⟨hhigh, hlow, hrest⟩ := hchars
          have hb : b.toNat < 256 := b.toNat_lt
          have hother : other.toNat < 256 := other.toNat_lt
          have hdiv := digitChar_inj _ (by omega) _ (by omega) hhigh
          have hmod := digitChar_inj _ (by omega) _ (by omega) hlow
          have heq : b = other := UInt8.toNat_inj.mp (by omega)
          rw [heq, ih hrest]

/-! ## One encoding for each value -/

theorem unsignedFormat_unique {size : Nat} {value : Value} {word other : List UInt8}
    (h : ((unsignedFormat size).map fun n : Nat => Value.int n) value word)
    (hother : ((unsignedFormat size).map fun n : Nat => Value.int n) value other) :
    word = other := by
  obtain ⟨n, ⟨-, rfl⟩, rfl⟩ := h
  obtain ⟨m, ⟨-, rfl⟩, heq⟩ := hother
  rw [Int.natCast_inj.mp (Value.int.inj heq)]

theorem signedFormat_unique {size : Nat} {value : Value} {word other : List UInt8}
    (h : ((signedFormat size).map fun n => Value.int n) value word)
    (hother : ((signedFormat size).map fun n => Value.int n) value other) : word = other := by
  obtain ⟨n, ⟨-, -, rfl⟩, rfl⟩ := h
  obtain ⟨m, ⟨-, -, rfl⟩, heq⟩ := hother
  rw [Value.int.inj heq]

theorem primitiveFormat_unique {name : String} {value : Value} {word other : List UInt8} :
    primitiveFormat name value word → primitiveFormat name value other → word = other := by
  unfold primitiveFormat
  split
  · exact unsignedFormat_unique
  · exact signedFormat_unique
  · exact unsignedFormat_unique
  · exact signedFormat_unique
  · exact unsignedFormat_unique
  · exact signedFormat_unique
  · exact unsignedFormat_unique
  · exact signedFormat_unique
  · exact unsignedFormat_unique
  · exact signedFormat_unique
  · rintro ⟨b, rfl, rfl⟩ ⟨b', heq, rfl⟩
    rw [Value.bool.inj heq]
  · rintro ⟨hlength, rfl⟩ ⟨hother, heq⟩
    exact base58Encode_inj (hlength.trans hother.symm) (Value.text.inj heq)
  · rintro ⟨text, bytes, rfl, htext, -, rfl⟩ ⟨text', bytes', heq, hother, -, rfl⟩
    rw [← Value.text.inj heq, htext] at hother
    have hbytes : bytes = bytes' := by
      have harray := congrArg ByteArray.data hother
      exact (List.toArray_inj harray)
    rw [hbytes]
  · rintro ⟨bytes, rfl, -, rfl⟩ ⟨bytes', heq, -, rfl⟩
    rw [hexText_inj (Value.text.inj heq)]
  · exact fun h => h.elim

/-- A dictionary that is filled under different names keeps all entries. -/
theorem toRecord_of_nodup {entries : List (String × Value)}
    (h : (entries.map Prod.fst).Nodup) : toRecord entries = entries := by
  have hfold : ∀ record : List (String × Value), ((record ++ entries).map Prod.fst).Nodup →
      entries.foldl (fun record entry => Dict.put record entry.1 entry.2) record =
        record ++ entries := by
    clear h
    induction entries with
    | nil => exact fun record _ => (List.append_nil record).symm
    | cons entry entries ih =>
        intro record hrecord
        have hfresh : entry.1 ∉ record.map Prod.fst := by
          intro hmem
          rw [List.map_append, List.nodup_append] at hrecord
          exact hrecord.2.2 _ hmem _ List.mem_cons_self rfl
        rw [List.foldl_cons, Dict.put_of_notMem hfresh, ih, List.append_assoc, List.singleton_append]
        rwa [List.append_assoc, List.singleton_append]
  exact hfold [] h

/-! ## No value is written twice -/

/-- The type is an option. -/
def IdlType.isOption : IdlType → Bool
  | .option _ => true
  | _ => false

/-- No option stands directly in an option. -/
def IdlType.Single : IdlType → Prop
  | .option item => item.isOption = false ∧ item.Single
  | .vec item => item.Single
  | .array item _ => item.Single
  | _ => True

/-- Values show how they were written: no option directly in an option, no repeated name. -/
structure Unambiguous (types : Dict String TypeDefinition) : Prop where
  single : ∀ name fields, types.get? name = some (.struct fields) →
    ∀ field ∈ fields, field.2.Single
  fields : ∀ name fields, types.get? name = some (.struct fields) → (fields.map Prod.fst).Nodup
  variants : ∀ name variants, types.get? name = some (.enum variants) → variants.Nodup

section Unique

variable {types : Dict String TypeDefinition}

theorem primitiveFormat_ne_none {name : String} {word : List UInt8} :
    ¬ primitiveFormat name .none word := by
  unfold primitiveFormat Format.map
  split <;> simp [Format.empty]

theorem Canonical.isOption_of_none {type : IdlType} {word : List UInt8}
    (h : Canonical types type .none word) : type.isOption = true := by
  cases h with
  | primitive h => exact absurd h primitiveFormat_ne_none
  | absent => rfl
  | present => rfl

theorem items_unique {item : IdlType} {parts others : List (Value × List UInt8)}
    (h : ∀ part ∈ parts, ∀ word, Canonical types item part.1 word → part.2 = word)
    (hothers : ∀ part ∈ others, Canonical types item part.1 part.2)
    (heq : parts.map Prod.fst = others.map Prod.fst) : parts = others := by
  have hlength : parts.length = others.length := by
    simpa using congrArg List.length heq
  refine Format.parts_unique (List.replicate parts.length (Canonical types item))
    (by simp) (by simp [hlength]) ?_ ?_ heq
  · exact (Format.forall_mem_replicate_zip fun format part =>
      ∀ word, format part.1 word → part.2 = word).mpr h
  · rw [hlength]
    exact (Format.forall_mem_replicate_zip fun format part => format part.1 part.2).mpr hothers

theorem fields_unique {fields : List (String × IdlType)} {parts others : List (Value × List UInt8)}
    (hnames : (fields.map Prod.fst).Nodup) (hlength : parts.length = fields.length)
    (hother : others.length = fields.length)
    (h : ∀ entry ∈ fields.zip parts, ∀ word, Canonical types entry.1.2 entry.2.1 word →
      entry.2.2 = word)
    (hothers : ∀ entry ∈ fields.zip others, Canonical types entry.1.2 entry.2.1 entry.2.2)
    (heq : toRecord ((fields.map Prod.fst).zip (parts.map Prod.fst)) =
      toRecord ((fields.map Prod.fst).zip (others.map Prod.fst))) : parts = others := by
  have hkeys : ∀ values : List (Value × List UInt8), values.length = fields.length →
      ((fields.map Prod.fst).zip (values.map Prod.fst)).map Prod.fst = fields.map Prod.fst := by
    intro values hvalues
    exact List.map_fst_zip (by simp [hvalues])
  rw [toRecord_of_nodup (by rw [hkeys _ hlength]; exact hnames),
    toRecord_of_nodup (by rw [hkeys _ hother]; exact hnames)] at heq
  have hvalues := congrArg (List.map Prod.snd) heq
  rw [List.map_snd_zip (by simp [hlength]), List.map_snd_zip (by simp [hother])] at hvalues
  refine Format.parts_unique (fields.map fun field => Canonical types field.2)
    (by simp [hlength]) (by simp [hother]) ?_ ?_ hvalues
  · rw [List.zip_map_left, List.forall_mem_map]
    exact h
  · exact struct_parts_iff _ |>.mpr hothers

/-- A value has one canonical encoding. -/
theorem Canonical.unique (hunambiguous : Unambiguous types) {type : IdlType} {value : Value}
    {word other : List UInt8} (h : Canonical types type value word) (hsingle : type.Single)
    (hother : Canonical types type value other) : word = other := by
  induction h generalizing other with
  | primitive h =>
      cases hother with
      | primitive hother => exact primitiveFormat_unique h hother
  | absent =>
      cases hother with
      | absent => rfl
      | present hother => exact absurd hother.isOption_of_none (by rw [hsingle.1]; decide)
  | present h ih =>
      cases hother with
      | absent => exact absurd h.isOption_of_none (by rw [hsingle.1]; decide)
      | present hother => rw [ih hsingle.2 hother]
  | @vec item parts hlength h ih =>
      generalize hvalue : Value.list (parts.map Prod.fst) = value at hother
      cases hother with
      | vec hlength' hothers =>
          rw [items_unique (fun part hpart word => ih part hpart hsingle) hothers
            (Value.list.inj hvalue)]
  | @array item length parts hlength h ih =>
      generalize hvalue : Value.list (parts.map Prod.fst) = value at hother
      cases hother with
      | array hlength' hothers =>
          rw [items_unique (fun part hpart word => ih part hpart hsingle) hothers
            (Value.list.inj hvalue)]
  | @struct name fields parts hname hlength h ih =>
      generalize hvalue : Value.record _ = value at hother
      cases hother with
      | enum => cases hvalue
      | struct hname' hlength' hothers =>
          cases hname.symm.trans hname'
          rw [fields_unique (hunambiguous.fields _ _ hname) hlength hlength' ?_ hothers
            (Value.record.inj hvalue)]
          intro entry hentry word hword
          have hfield := hunambiguous.single _ _ hname _ (List.of_mem_zip hentry).1
          exact ih entry hentry hfield hword
  | @enum name variant variants index hname hvariant hindex =>
      generalize hvalue : Value.text variant = value at hother
      cases hother with
      | struct => cases hvalue
      | enum hname' hvariant' hindex' =>
          cases hname.symm.trans hname'
          cases hvalue
          have hbound := (List.getElem?_eq_some_iff.mp hvariant).choose
          rw [(List.getElem?_inj hbound (hunambiguous.variants _ _ hname)).mp
            (hvariant.trans hvariant'.symm)]

/-- `_decode_struct` accepts the canonical encodings of the values of the struct and no other
payload, neither cut off nor extended ones. It returns the one value that the payload encodes, and
raises one of its own errors otherwise. Where values show how they were written, the returned value
has no other encoding. -/
theorem decodeStruct_canonical {name : String} {fields : List (String × IdlType)}
    (h : Acyclic types) (hname : types.get? name = some (.struct fields)) :
    ∃ enough, ∀ depth ≥ enough, ∀ payload,
      (∀ values, decodeStruct types depth name payload = .ok values ↔
        Canonical types (.defined name) (.record values) payload) ∧
      (∀ e, decodeStruct types depth name payload = .error e → e ≠ .recursion) ∧
      (∀ value other, Canonical types (.defined name) value payload →
        Canonical types (.defined name) other payload → value = other) ∧
      (∀ value other extra, Canonical types (.defined name) value payload →
        Canonical types (.defined name) other (payload ++ extra) → extra = []) ∧
      (Unambiguous types → ∀ values word, decodeStruct types depth name payload = .ok values →
        Canonical types (.defined name) (.record values) word → word = payload) := by
  obtain ⟨enough, henough⟩ := decodeStruct_spec h hname
  obtain ⟨deep, hdeep⟩ := (eventually_exact h name).exists
  refine ⟨enough, fun depth hdepth payload => ?_⟩
  obtain ⟨haccepts, hraises⟩ := henough depth hdepth payload
  refine ⟨haccepts, hraises, ?_, ?_, ?_⟩
  · intro value other hvalue hother
    exact (hdeep.unique hvalue hother (rfl : payload ++ [] = payload ++ [])).1
  · intro value other extra hvalue hother
    exact (hdeep.unique hvalue hother (List.append_nil (payload ++ extra)).symm).2
  · intro hunambiguous values word hvalues hword
    exact hword.unique hunambiguous trivial ((haccepts values).mp hvalues)

end Unique

/-! ## IDLs -/

/-- References go down in rank. -/
theorem acyclic_of_rank {types : Dict String TypeDefinition} (rank : String → Nat)
    (h : ∀ inner outer, Refers types inner outer → rank inner < rank outer) : Acyclic types := by
  have hrank : ∀ inner outer, Relation.TransGen (Refers types) inner outer →
      rank inner < rank outer := by
    intro inner outer hrefers
    induction hrefers with
    | single hlast => exact h _ _ hlast
    | tail _ hlast ih => exact ih.trans (h _ _ hlast)
  exact fun name hname => (hrank _ _ hname).false

/-- A struct with an enum, a vector and an option. -/
def tradeTypes : Dict String TypeDefinition :=
  ⟨[("Trade", .struct [("side", .defined "Side"), ("amounts", .vec (.primitive "i16")),
    ("note", .option (.primitive "u8"))]), ("Side", .enum ["Buy", "Sell"])], by decide⟩

theorem tradeTypes_acyclic : Acyclic tradeTypes := by
  refine acyclic_of_rank (fun name => if name = "Trade" then 1 else 0) ?_
  rintro inner outer ⟨fields, hname, field, hfield, hinner⟩
  have hentry := Dict.mem_of_find hname
  simp only [tradeTypes, List.mem_cons, Prod.mk.injEq, TypeDefinition.struct.injEq,
    List.not_mem_nil, or_false, reduceCtorEq, and_false] at hentry
  obtain ⟨rfl, rfl⟩ := hentry
  simp only [List.mem_cons, List.not_mem_nil, or_false] at hfield
  rcases hfield with rfl | rfl | rfl
  · cases List.mem_singleton.mp hinner
    decide
  · cases hinner
  · cases hinner

theorem tradeTypes_unambiguous : Unambiguous tradeTypes where
  single name fields hname field hfield := by
    have hentry := Dict.mem_of_find hname
    simp only [tradeTypes, List.mem_cons, Prod.mk.injEq, TypeDefinition.struct.injEq,
      List.not_mem_nil, or_false, reduceCtorEq, and_false] at hentry
    obtain ⟨rfl, rfl⟩ := hentry
    simp only [List.mem_cons, List.not_mem_nil, or_false] at hfield
    rcases hfield with rfl | rfl | rfl
    · trivial
    · trivial
    · exact ⟨rfl, trivial⟩
  fields name fields hname := by
    have hentry := Dict.mem_of_find hname
    simp only [tradeTypes, List.mem_cons, Prod.mk.injEq, TypeDefinition.struct.injEq,
      List.not_mem_nil, or_false, reduceCtorEq, and_false] at hentry
    obtain ⟨rfl, rfl⟩ := hentry
    decide
  variants name variants hname := by
    have hentry := Dict.mem_of_find hname
    simp only [tradeTypes, List.mem_cons, Prod.mk.injEq, TypeDefinition.enum.injEq,
      List.not_mem_nil, or_false, reduceCtorEq, and_false, false_or] at hentry
    obtain ⟨rfl, rfl⟩ := hentry
    decide

theorem decodeStruct_canonical_trade :
    ∃ enough, ∀ depth ≥ enough,
      decodeStruct tradeTypes depth "Trade" [1, 1, 0, 0, 0, 254, 255, 1, 65] =
          .ok [("side", .text "Sell"), ("amounts", .list [.int (-2)]), ("note", .int 65)] ∧
        ∀ word, Canonical tradeTypes (.defined "Trade") (.record
          [("side", .text "Sell"), ("amounts", .list [.int (-2)]), ("note", .int 65)]) word →
          word = [1, 1, 0, 0, 0, 254, 255, 1, 65] := by
  have hname : tradeTypes.get? "Trade" = some (.struct [("side", .defined "Side"),
      ("amounts", .vec (.primitive "i16")), ("note", .option (.primitive "u8"))]) := rfl
  obtain ⟨enough, henough⟩ := decodeStruct_canonical tradeTypes_acyclic hname
  have hdeep : decodeStruct tradeTypes (enough + 1) "Trade" [1, 1, 0, 0, 0, 254, 255, 1, 65] =
      .ok [("side", .text "Sell"), ("amounts", .list [.int (-2)]), ("note", .int 65)] := rfl
  have hcanonical := ((henough (enough + 1) (Nat.le_succ _) _).1 _).mp hdeep
  refine ⟨enough, fun depth hdepth => ?_⟩
  have haccepted := ((henough depth hdepth _).1 _).mpr hcanonical
  exact ⟨haccepted, fun word =>
    (henough depth hdepth _).2.2.2.2 tradeTypes_unambiguous _ word haccepted⟩

/-- A struct with an option of an option. The next two repeat a field and a variant. -/
def nestedTypes : Dict String TypeDefinition :=
  ⟨[("S", .struct [("x", .option (.option (.primitive "u8")))])], by decide⟩

def repeatedFieldTypes : Dict String TypeDefinition :=
  ⟨[("S", .struct [("x", .primitive "u8"), ("x", .primitive "u8")])], by decide⟩

def repeatedVariantTypes : Dict String TypeDefinition :=
  ⟨[("S", .struct [("x", .defined "E")]), ("E", .enum ["A", "A"])], by decide⟩

/-- An encoder gets the payload back from what the decoder returned. -/
def Reencodes (types : Dict String TypeDefinition) (name : String) : Prop :=
  ∃ encode : List (String × Value) → List UInt8, ∀ depth payload values,
    decodeStruct types depth name payload = .ok values → encode values = payload

theorem not_reencodes {types : Dict String TypeDefinition} {name : String} {depth : Nat}
    {values : List (String × Value)} {payload other : List UInt8}
    (h : decodeStruct types depth name payload = .ok values)
    (hother : decodeStruct types depth name other = .ok values) (hne : payload ≠ other) :
    ¬ Reencodes types name := by
  rintro ⟨encode, hencode⟩
  exact hne ((hencode _ _ _ h).symm.trans (hencode _ _ _ hother))

/-- Two payloads of each of these IDLs are decoded to the same fields. -/
theorem nested_option_not_reencoded :
    ¬ Reencodes nestedTypes "S" ∧ ¬ Reencodes repeatedFieldTypes "S" ∧
      ¬ Reencodes repeatedVariantTypes "S" := by
  refine ⟨?_, ?_, ?_⟩
  · have habsent : decodeStruct nestedTypes 1 "S" [0] = .ok [("x", .none)] := rfl
    have hpresent : decodeStruct nestedTypes 1 "S" [1, 0] = .ok [("x", .none)] := rfl
    exact not_reencodes habsent hpresent (by decide)
  · have hzero : decodeStruct repeatedFieldTypes 1 "S" [0, 2] = .ok [("x", .int 2)] := rfl
    have hone : decodeStruct repeatedFieldTypes 1 "S" [1, 2] = .ok [("x", .int 2)] := rfl
    exact not_reencodes hzero hone (by decide)
  · have hzero : decodeStruct repeatedVariantTypes 1 "S" [0] = .ok [("x", .text "A")] := rfl
    have hone : decodeStruct repeatedVariantTypes 1 "S" [1] = .ok [("x", .text "A")] := rfl
    exact not_reencodes hzero hone (by decide)

end SniperBot.Protocols
