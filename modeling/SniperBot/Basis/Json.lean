import SniperBot.Basis.Dict

/-!
# JSON values

A decoded JSON document, and how values are written to one and read back. `Codec.Lawful` says
that reading what was written gives the value. Fields of an object are read with a default
(`data.get(key, default)`) or without; lists and dictionaries are written element by element.
-/

namespace Basis

inductive Json
  | null
  | bool (value : Bool)
  | int (value : Int)
  | text (value : String)
  | list (items : List Json)
  | object (fields : List (String × Json))

namespace Json

variable {α β : Type*}

/-- How the values of a type are written and read. -/
structure Codec (α : Type*) where
  dump : α → Json
  load : Json → Option α

/-- What is written can be read, and is not `null`. -/
structure Codec.Lawful (c : Codec α) : Prop where
  load_dump : ∀ a, c.load (c.dump a) = some a
  dump_ne_null : ∀ a, c.dump a ≠ .null

/-! ## Scalars -/

/-- Values written as a text. -/
def ofText (write : α → String) (read : String → Option α) : Codec α where
  dump a := .text (write a)
  load
    | .text value => read value
    | _ => none

theorem ofText_lawful {write : α → String} {read : String → Option α}
    (h : ∀ a, read (write a) = some a) : (ofText write read).Lawful :=
  ⟨h, fun _ => nofun⟩

def string : Codec String := ofText id some

theorem string_lawful : string.Lawful := ofText_lawful fun _ => rfl

def boolean : Codec Bool where
  dump := .bool
  load
    | .bool value => some value
    | _ => none

theorem boolean_lawful : boolean.Lawful := ⟨fun _ => rfl, fun _ => nofun⟩

def integer : Codec Int where
  dump := .int
  load
    | .int value => some value
    | _ => none

theorem integer_lawful : integer.Lawful := ⟨fun _ => rfl, fun _ => nofun⟩

/-- A missing value is written as `null`. -/
def nullable (c : Codec α) : Codec (Option α) where
  dump
    | none => .null
    | some a => c.dump a
  load
    | .null => some none
    | value => (c.load value).map some

theorem nullable_load_dump {c : Codec α} (h : c.Lawful) (a : Option α) :
    (nullable c).load ((nullable c).dump a) = some a := by
  cases a with
  | none => rfl
  | some a =>
      have hload := h.load_dump a
      have hnull := h.dump_ne_null a
      simp only [nullable]
      cases hdump : c.dump a with
      | null => exact absurd hdump hnull
      | _ =>
          rw [← hdump, hload]
          rfl

/-! ## Fields of an object -/

/-- A field that must be present. -/
def field (c : Codec α) (fields : List (String × Json)) (key : String) : Option α :=
  (Dict.find fields key).bind c.load

/-- A field with a default. -/
def fieldOr (c : Codec α) (default : α) (fields : List (String × Json)) (key : String) :
    Option α :=
  match Dict.find fields key with
  | none => some default
  | some value => c.load value

section Fields

variable {c : Codec α} {fields : List (String × Json)} {key : String} {a : α}

/-- Among fields with different keys, a written field is read, wherever it stands. -/
theorem field_at (hkeys : (fields.map Prod.fst).Nodup) (i : Nat)
    (hget : fields[i]? = some (key, c.dump a)) (h : c.load (c.dump a) = some a) :
    field c fields key = some a := by
  rw [field, Dict.find_of_mem hkeys (List.mem_of_getElem? hget), Option.bind_some, h]

theorem fieldOr_at (hkeys : (fields.map Prod.fst).Nodup) (i : Nat) {default : α}
    (hget : fields[i]? = some (key, c.dump a)) (h : c.load (c.dump a) = some a) :
    fieldOr c default fields key = some a := by
  rw [fieldOr, Dict.find_of_mem hkeys (List.mem_of_getElem? hget)]
  exact h

end Fields

/-! ## Lists and dictionaries -/

def listOf (c : Codec α) : Codec (List α) where
  dump items := .list (items.map c.dump)
  load
    | .list items => items.mapM c.load
    | _ => none

/-- The entries of a dictionary, written in their order and set one after the other. -/
def dictOf (c : Codec α) : Codec (Dict String α) where
  dump d := .object (d.entries.map fun e => (e.1, c.dump e.2))
  load
    | .object fields =>
        fields.foldlM (fun d e => (c.load e.2).map (d.set e.1)) Dict.empty
    | _ => none

/-- A loop that reads items and changes a state with each of them, over items that were
written. -/
theorem foldlM_load_dump {σ : Type*} {c : Codec α} (h : c.Lawful) (f : σ → α → σ) (items : List α)
    (s : σ) : (items.map c.dump).foldlM (fun s item => (c.load item).map (f s)) s =
      some (items.foldl f s) := by
  induction items generalizing s with
  | nil => rfl
  | cons item rest ih =>
      rw [List.map_cons, List.foldlM_cons, h.load_dump, List.foldl_cons]
      exact ih (f s item)

theorem dictOf_lawful {c : Codec α} (h : c.Lawful) : (dictOf c).Lawful := by
  refine ⟨fun d => ?_, fun _ => nofun⟩
  have hloop (es : List (String × α)) (start : Dict String α) :
      (es.map fun e => (e.1, c.dump e.2)).foldlM
          (fun d e => (c.load e.2).map (d.set e.1)) start =
        some (es.foldl (fun d e => d.set e.1 e.2) start) := by
    induction es generalizing start with
    | nil => rfl
    | cons e es ih =>
        rw [List.map_cons, List.foldlM_cons, h.load_dump, List.foldl_cons]
        exact ih (start.set e.1 e.2)
  simp only [dictOf]
  rw [hloop, Dict.foldl_set_entries]

end Json

end Basis
