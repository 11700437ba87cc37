import Mathlib.Order.Filter.AtTopBot.Basic
import Mathlib.Order.Filter.Finite
import Mathlib.Order.WellFoundedSet
import SniperBot.Protocols.Canonical

/-!
# The decoder reads the canonical encodings

Exactness goes from the primitive types to the composite ones, and from the types that a struct
refers to to the struct. References end when no type refers to itself, so some depth is enough for
all of them.
-/

namespace SniperBot.Protocols

open Basis

/-! ## Composite types -/

/-- The names that a type refers to. -/
def IdlType.references : IdlType → List String
  | .primitive _ => []
  | .option item => item.references
  | .vec item => item.references
  | .array item _ => item.references
  | .defined name => [name]
  | .unsupported _ => []

theorem repeatDecoder_exact {item : Decoder Value} {format : Format UInt8 Value}
    (h : Exact Raised item format) (count : Nat) :
    Exact Raised (repeatDecoder item count) (.sequence (List.replicate count format)) := by
  induction count with
  | zero => exact Exact.pure []
  | succ count ih => exact h.bind fun value => ih.map (value :: ·)

/-- The parts of a repeated item. -/
theorem sequence_replicate_iff (format : Format UInt8 Value) (count : Nat) (values : List Value)
    (word : List UInt8) :
    Format.sequence (List.replicate count format) values word ↔
      ∃ parts : List (Value × List UInt8), parts.length = count ∧
        (∀ part ∈ parts, format part.1 part.2) ∧
          values = parts.map Prod.fst ∧ word = (parts.map Prod.snd).flatten := by
  rw [Format.sequence_iff]
  refine exists_congr fun parts => ?_
  rw [List.length_replicate]
  refine and_congr_right fun hlength => and_congr_left' ?_
  subst hlength
  exact Format.forall_mem_replicate_zip fun format part => format part.1 part.2

/-- The bytes behind the tag of an option. -/
theorem tagged_exact {item : Decoder Value} {format : Format UInt8 Value}
    (h : Exact Raised item format) (tag : Nat) :
    Exact Raised (do
        if tag = 0 then return Value.none
        if tag ≠ 1 then throw .optionTag
        item)
      (fun value word => (tag = 0 ∧ value = .none ∧ word = []) ∨ (tag = 1 ∧ format value word)) := by
  by_cases habsent : tag = 0
  · rw [if_pos habsent]
    refine (Exact.pure Value.none).congr fun value word => ?_
    constructor
    · rintro (⟨-, hvalue⟩ | ⟨hpresent, -⟩)
      · exact hvalue
      · omega
    · exact fun hvalue => Or.inl ⟨habsent, hvalue⟩
  · rw [if_neg habsent]
    have herror : Raised .optionTag := nofun
    refine (Exact.guard herror _ fun _ => h).congr fun value word => ?_
    constructor
    · rintro (⟨hzero, -⟩ | ⟨hpresent, hword⟩)
      · exact absurd hzero habsent
      · exact ⟨not_not.mpr hpresent, hword⟩
    · rintro ⟨hpresent, hword⟩
      exact Or.inr ⟨not_not.mp hpresent, hword⟩

theorem decodeType_exact {types : Dict String TypeDefinition} {defined : String → Decoder Value}
    {type : IdlType}
    (h : ∀ name ∈ type.references, Exact Raised (defined name) (Canonical types (.defined name))) :
    Exact Raised (decodeType defined type) (Canonical types type) := by
  induction type with
  | primitive name =>
      refine (primitive_exact name).congr fun value word => ⟨?_, .primitive⟩
      intro h
      cases h
      assumption
  | option item ih =>
      refine ((unsigned_exact 1).bind fun tag => tagged_exact (ih h) tag).congr fun value word => ?_
      constructor
      · intro h
        cases h with
        | absent => exact ⟨0, [0], [], ⟨by decide, rfl⟩, Or.inl ⟨rfl, rfl, rfl⟩, rfl⟩
        | present hvalue => exact ⟨1, [1], _, ⟨by decide, rfl⟩, Or.inr ⟨rfl, hvalue⟩, rfl⟩
      · rintro ⟨_, _, _, ⟨-, rfl⟩, ⟨rfl, rfl, rfl⟩ | ⟨rfl, hvalue⟩, rfl⟩
        · exact .absent
        · exact .present hvalue
  | vec item ih =>
      have herror : Raised .vectorLength := nofun
      refine ((unsigned_exact 4).bind fun length => Exact.guard herror _ fun _ =>
        (repeatDecoder_exact (ih h) length).map Value.list).congr fun value word => ?_
      constructor
      · intro h
        cases h with
        | vec hlength hparts =>
            exact ⟨_, _, _, ⟨by omega, rfl⟩, ⟨by omega, _, (sequence_replicate_iff _ _ _ _).mpr
              ⟨_, rfl, hparts, rfl, rfl⟩, rfl⟩, rfl⟩
      · rintro ⟨length, _, _, ⟨-, rfl⟩, ⟨hlength, values, hvalues, rfl⟩, rfl⟩
        obtain ⟨parts, rfl, hparts, rfl, rfl⟩ := (sequence_replicate_iff _ _ _ _).mp hvalues
        exact .vec (by omega) hparts
  | array item length ih =>
      refine ((repeatDecoder_exact (ih h) length.toNat).map Value.list).congr fun value word => ?_
      constructor
      · intro h
        cases h with
        | array hlength hparts =>
            exact ⟨_, (sequence_replicate_iff _ _ _ _).mpr ⟨_, hlength, hparts, rfl, rfl⟩, rfl⟩
      · rintro ⟨values, hvalues, rfl⟩
        obtain ⟨parts, hlength, hparts, rfl, rfl⟩ := (sequence_replicate_iff _ _ _ _).mp hvalues
        exact .array hlength hparts
  | defined name => exact h name (List.mem_singleton_self name)
  | unsupported shown =>
      have herror : Raised (.unsupportedType shown) := nofun
      refine (Exact.throw herror).congr fun value word => ⟨?_, fun h => h.elim⟩
      intro h
      cases h

theorem decodeFields_exact {types : Dict String TypeDefinition} {defined : String → Decoder Value}
    {fields : List (String × IdlType)}
    (h : ∀ field ∈ fields, ∀ name ∈ field.2.references,
      Exact Raised (defined name) (Canonical types (.defined name)))
    (record : List (String × Value)) :
    Exact Raised (decodeFields defined fields record)
      ((Format.sequence (fields.map fun field => Canonical types field.2)).map fun values =>
        ((fields.map Prod.fst).zip values).foldl (fun record entry => Dict.put record entry.1 entry.2)
          record) := by
  induction fields generalizing record with
  | nil =>
      refine (Exact.pure record).congr fun value word => ?_
      constructor
      · rintro ⟨_, ⟨rfl, rfl⟩, rfl⟩
        exact ⟨rfl, rfl⟩
      · rintro ⟨rfl, rfl⟩
        exact ⟨[], ⟨rfl, rfl⟩, rfl⟩
  | cons field fields ih =>
      have hfirst := decodeType_exact (h field List.mem_cons_self)
      have hrest := ih fun other hother => h other (List.mem_cons_of_mem _ hother)
      refine (hfirst.bind fun value => hrest (Dict.put record field.1 value)).congr
        fun value word => ?_
      constructor
      · rintro ⟨_, ⟨first, before, after, hbefore, ⟨values, hvalues, rfl⟩, rfl⟩, rfl⟩
        exact ⟨first, before, after, hbefore, ⟨values, hvalues, rfl⟩, rfl⟩
      · rintro ⟨first, before, after, hbefore, ⟨values, hvalues, rfl⟩, rfl⟩
        exact ⟨_, ⟨first, before, after, hbefore, ⟨values, hvalues, rfl⟩, rfl⟩, rfl⟩

/-- A struct refers to the names in the types of its fields. -/
def Refers (types : Dict String TypeDefinition) (inner outer : String) : Prop :=
  ∃ fields, types.get? outer = some (.struct fields) ∧ ∃ field ∈ fields,
    inner ∈ field.2.references

/-- No type definition refers to itself, directly or through others. -/
def Acyclic (types : Dict String TypeDefinition) : Prop :=
  ∀ name, ¬ Relation.TransGen (Refers types) name name

/-- The names that a definition mentions. -/
def TypeDefinition.mentioned : TypeDefinition → List String
  | .struct fields => fields.flatMap fun field => field.2.references
  | _ => []

theorem refers_finite (types : Dict String TypeDefinition) :
    {inner | ∃ outer, Refers types inner outer}.Finite := by
  let mentioned : List String := types.entries.flatMap fun entry => entry.2.mentioned
  refine mentioned.finite_toSet.subset ?_
  rintro inner ⟨outer, fields, hname, field, hfield, hinner⟩
  exact List.mem_flatMap.mpr ⟨_, Dict.mem_of_find hname,
    List.mem_flatMap.mpr ⟨field, hfield, hinner⟩⟩

theorem Acyclic.wellFounded {types : Dict String TypeDefinition} (h : Acyclic types) :
    WellFounded (Refers types) := by
  have : IsStrictOrder String (Relation.TransGen (Refers types)) := { irrefl := h }
  refine ⟨fun name => (Set.WellFoundedOn.acc_iff_wellFoundedOn.out 0 2).mpr ?_⟩
  have hfinite : {inner | Relation.TransGen (Refers types) inner name}.Finite := by
    refine (refers_finite types).subset fun inner hinner => ?_
    obtain ⟨outer, hfirst, -⟩ := Relation.TransGen.head'_iff.mp hinner
    exact ⟨outer, hfirst⟩
  exact (hfinite.wellFoundedOn (r := Relation.TransGen (Refers types))).mono
    (fun _ _ => .single) subset_rfl

section Structs

variable {types : Dict String TypeDefinition} {name : String} {fields : List (String × IdlType)}

/-- The entries of the format of a struct, as parts of its fields. -/
theorem struct_parts_iff (parts : List (Value × List UInt8)) :
    (∀ entry ∈ (fields.map fun field => Canonical types field.2).zip parts,
      entry.1 entry.2.1 entry.2.2) ↔
      ∀ entry ∈ fields.zip parts, Canonical types entry.1.2 entry.2.1 entry.2.2 := by
  rw [List.zip_map_left, List.forall_mem_map]
  rfl

theorem canonical_struct_iff (hname : types.get? name = some (.struct fields)) (value : Value)
    (word : List UInt8) :
    Canonical types (.defined name) value word ↔
      ((Format.sequence (fields.map fun field => Canonical types field.2)).map fun values =>
        Value.record (toRecord ((fields.map Prod.fst).zip values))) value word := by
  constructor
  · intro h
    cases h with
    | struct hother hlength hparts =>
        cases hname.symm.trans hother
        refine ⟨_, (Format.sequence_iff _ _ _).mpr ⟨_, ?_, (struct_parts_iff _).mpr hparts, rfl, rfl⟩,
          rfl⟩
        rw [List.length_map, hlength]
    | enum hother => cases hname.symm.trans hother
  · rintro ⟨values, hvalues, rfl⟩
    obtain ⟨parts, hlength, hparts, rfl, rfl⟩ := (Format.sequence_iff _ _ _).mp hvalues
    rw [List.length_map] at hlength
    exact .struct hname hlength ((struct_parts_iff _).mp hparts)

theorem canonical_record_iff (hname : types.get? name = some (.struct fields))
    (values : List (String × Value)) (word : List UInt8) :
    Canonical types (.defined name) (.record values) word ↔
      ((Format.sequence (fields.map fun field => Canonical types field.2)).map fun values =>
        toRecord ((fields.map Prod.fst).zip values)) values word := by
  rw [canonical_struct_iff hname]
  constructor
  · rintro ⟨parts, hparts, heq⟩
    exact ⟨parts, hparts, Value.record.inj heq⟩
  · rintro ⟨parts, hparts, heq⟩
    exact ⟨parts, hparts, congrArg Value.record heq⟩

theorem decodeFields_record_exact (hname : types.get? name = some (.struct fields)) {depth : Nat}
    (h : ∀ inner, Refers types inner name →
      Exact Raised (decodeDefined types depth inner) (Canonical types (.defined inner))) :
    Exact Raised (decodeFields (decodeDefined types depth) fields [])
      (fun values word => Canonical types (.defined name) (.record values) word) :=
  (decodeFields_exact (fun field hfield inner hinner =>
    h inner ⟨fields, hname, field, hfield, hinner⟩) []).congr (canonical_record_iff hname)

theorem decodeDefined_struct_exact (hname : types.get? name = some (.struct fields)) {depth : Nat}
    (h : ∀ inner, Refers types inner name →
      Exact Raised (decodeDefined types depth inner) (Canonical types (.defined inner))) :
    Exact Raised (decodeDefined types (depth + 1) name) (Canonical types (.defined name)) := by
  rw [decodeDefined, hname]
  refine ((decodeFields_record_exact hname h).map Value.record).congr fun value word => ?_
  constructor
  · intro hvalue
    obtain ⟨values, -, rfl⟩ := (canonical_struct_iff hname value word).mp hvalue
    exact ⟨_, hvalue, rfl⟩
  · rintro ⟨values, hvalues, rfl⟩
    exact hvalues

/-- The reading of a variant by its index. -/
def decodeVariant (variants : List String) (name : String) (index : Nat) : Decoder Value :=
  match variants[index]? with
  | some variant => return Value.text variant
  | none => throw (.enumVariant name)

theorem decodeDefined_enum_exact {variants : List String}
    (hname : types.get? name = some (.enum variants)) (depth : Nat) :
    Exact Raised (decodeDefined types (depth + 1) name) (Canonical types (.defined name)) := by
  have hvariant : ∀ index : Nat, Exact Raised (decodeVariant variants name index)
      (fun value word => (∃ variant, variants[index]? = some variant ∧ value = .text variant) ∧
        word = []) := by
    intro index
    unfold decodeVariant
    split
    · rename_i variant hfound
      refine (Exact.pure _).congr fun value word => and_congr_left' ?_
      constructor
      · rintro ⟨other, hother, rfl⟩
        rw [Option.some.inj (hother.symm.trans hfound)]
      · rintro rfl
        exact ⟨variant, hfound, rfl⟩
    · rename_i hmissing
      have herror : Raised (.enumVariant name) := fun heq => by cases heq
      refine (Exact.throw herror).congr fun value word => ⟨?_, fun h => h.elim⟩
      rintro ⟨⟨variant, hfound, -⟩, -⟩
      cases hmissing.symm.trans hfound
  rw [decodeDefined, hname]
  refine ((unsigned_exact 1).bind hvariant).congr fun value word => ?_
  constructor
  · intro h
    cases h with
    | struct hother => cases hname.symm.trans hother
    | enum hother hfound hindex =>
        cases hname.symm.trans hother
        exact ⟨_, _, [], ⟨hindex, rfl⟩, ⟨⟨_, hfound, rfl⟩, rfl⟩, by
          rw [List.append_nil, littleEndianBytes, Nat.mod_eq_of_lt hindex, littleEndianBytes]⟩
  · rintro ⟨index, _, _, ⟨hindex, rfl⟩, ⟨⟨variant, hfound, rfl⟩, rfl⟩, rfl⟩
    rw [pow_one] at hindex
    rw [List.append_nil, littleEndianBytes, Nat.mod_eq_of_lt hindex, littleEndianBytes]
    exact .enum hname hfound hindex

/-- A name without a definition, or with one of another kind, has no values. -/
theorem decodeDefined_unsupported_exact (hstruct : ∀ fields, types.get? name ≠ some (.struct fields))
    (henum : ∀ variants, types.get? name ≠ some (.enum variants)) (depth : Nat) :
    Exact Raised (decodeDefined types (depth + 1) name) (Canonical types (.defined name)) := by
  have hempty : ∀ value word, Canonical types (.defined name) value word ↔ False := by
    intro value word
    refine ⟨fun h => ?_, False.elim⟩
    cases h with
    | struct hname => exact hstruct _ hname
    | enum hname => exact henum _ hname
  rw [decodeDefined]
  split
  · have herror : Raised (.missingType name) := nofun
    exact (Exact.throw herror).congr hempty
  · rename_i fields hname
    exact absurd hname (hstruct fields)
  · rename_i variants hname
    exact absurd hname (henum variants)
  · have herror : Raised (.unsupportedKind name) := nofun
    exact (Exact.throw herror).congr hempty

/-- What holds of a name eventually holds eventually of all names that a struct refers to. -/
theorem eventually_inner {holds : Nat → String → Prop} (name : String)
    (h : ∀ inner, Refers types inner name → ∀ᶠ depth in Filter.atTop, holds depth inner) :
    ∃ enough, ∀ depth ≥ enough, ∀ inner, Refers types inner name → holds depth inner := by
  have hfinite : {inner | Refers types inner name}.Finite :=
    (refers_finite types).subset fun inner hrefers => ⟨name, hrefers⟩
  exact Filter.eventually_atTop.mp ((Filter.eventually_all_finite hfinite).mpr h)

/-- References end, so some depth is enough to follow them. -/
theorem eventually_exact (h : Acyclic types) (name : String) :
    ∀ᶠ depth in Filter.atTop,
      Exact Raised (decodeDefined types depth name) (Canonical types (.defined name)) := by
  induction name using h.wellFounded.induction with
  | _ name ih =>
      obtain ⟨enough, henough⟩ := eventually_inner name ih
      refine Filter.eventually_atTop.mpr ⟨enough + 1, fun depth hdepth => ?_⟩
      obtain ⟨depth, rfl⟩ := Nat.exists_eq_add_of_le' (Nat.le_of_add_left_le hdepth)
      cases hname : types.get? name with
      | none => exact decodeDefined_unsupported_exact (by simp [hname]) (by simp [hname]) depth
      | some definition =>
          cases definition with
          | struct fields =>
              exact decodeDefined_struct_exact hname (henough depth (by omega))
          | enum variants => exact decodeDefined_enum_exact hname depth
          | other kind =>
              exact decodeDefined_unsupported_exact (by simp [hname]) (by simp [hname]) depth

/-- `_decode_struct` reads the fields and refuses what is left. -/
theorem decodeStruct_eq (hname : types.get? name = some (.struct fields)) (depth : Nat)
    (payload : List UInt8) :
    decodeStruct types depth name payload =
      match (decodeFields (decodeDefined types depth) fields []).run payload with
      | .error e => .error e
      | .ok (values, rest) =>
          if rest ≠ [] then .error (.trailingBytes name rest.length) else .ok values := by
  rw [decodeStruct, hname]
  dsimp only
  cases (decodeFields (decodeDefined types depth) fields []).run payload with
  | error e => rfl
  | ok result =>
      by_cases hrest : result.2 ≠ []
      · exact (if_pos hrest).trans (if_pos hrest).symm
      · exact (if_neg hrest).trans (if_neg hrest).symm

/-- The decoder accepts the canonical encodings of the values of the struct, returns the value, and
raises one of its own errors on all other payloads. -/
theorem decodeStruct_spec (h : Acyclic types) (hname : types.get? name = some (.struct fields)) :
    ∃ enough, ∀ depth ≥ enough, ∀ payload,
      (∀ values, decodeStruct types depth name payload = .ok values ↔
        Canonical types (.defined name) (.record values) payload) ∧
      ∀ e, decodeStruct types depth name payload = .error e → Raised e := by
  obtain ⟨enough, henough⟩ := eventually_inner name fun inner _ => eventually_exact h inner
  refine ⟨enough, fun depth hdepth payload => ?_⟩
  have hexact := decodeFields_record_exact hname (henough depth hdepth)
  rw [decodeStruct_eq hname]
  cases hrun : (decodeFields (decodeDefined types depth) fields []).run payload with
  | error e =>
      refine ⟨fun values => ⟨nofun, fun hvalues => ?_⟩, fun other herror => ?_⟩
      · rw [hexact.run_word hvalues] at hrun
        cases hrun
      · cases herror
        exact hexact.run_error _ _ hrun
  | ok result =>
      obtain ⟨read, rest⟩ := result
      dsimp only
      refine ⟨fun values => ⟨fun haccepted => ?_, fun hvalues => ?_⟩, fun other herror => ?_⟩
      · split at haccepted
        · cases haccepted
        · rename_i hrest
          cases haccepted
          obtain ⟨word, hword, hinput⟩ := (hexact.run_ok _ _ _).mp hrun
          rw [not_not.mp hrest, List.append_nil] at hinput
          exact hinput ▸ hword
      · rw [hexact.run_word hvalues] at hrun
        cases hrun
        exact if_neg (not_not.mpr rfl)
      · split at herror
        · cases herror
          exact nofun
        · cases herror

end Structs

end SniperBot.Protocols
