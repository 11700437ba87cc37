import SniperBot.Basis.Dict

/-!
# Write buffers

A table is a function from keys to rows. `overlay table pending` is the table behind a buffer of
pending writes, one for each key. Writing to the buffer and writing to the table behind it come
to the same, and so does writing the entries of the buffer out in any order.

`slices` cuts a list into pieces of a fixed length, the last of which may be shorter.
-/

namespace Basis

/-! ## Overlays -/

section Overlay

variable {κ μ ν : Type*} [DecidableEq κ]

/-- The rows of a table with the pending writes in front; a write `m` stores the row `stored m`. -/
def overlay (stored : μ → ν) (table : κ → Option ν) (pending : Dict κ μ) : κ → Option ν := fun k =>
  match pending.get? k with
  | some m => some (stored m)
  | none => table k

variable {stored : μ → ν} {table : κ → Option ν} {pending : Dict κ μ} {k : κ}

@[simp] theorem overlay_empty : overlay stored table Dict.empty = table := rfl

theorem overlay_of_some {m : μ} (h : pending.get? k = some m) :
    overlay stored table pending k = some (stored m) := by
  rw [overlay, h]

theorem overlay_of_none (h : pending.get? k = none) :
    overlay stored table pending k = table k := by
  rw [overlay, h]

/-- A buffered write is a write to the table behind the buffer. -/
theorem overlay_set (k : κ) (m : μ) : overlay stored table (pending.set k m) =
    Function.update (overlay stored table pending) k (some (stored m)) := by
  funext j
  rw [Function.update_apply, overlay, Dict.get?_set]
  by_cases hj : k = j
  · rw [if_pos hj, if_pos hj.symm]
  · rw [if_neg hj, if_neg (Ne.symm hj)]
    rfl

/-- The rows behind the buffer are those of the table and those that are pending. -/
theorem isSome_overlay : (overlay stored table pending k).isSome = true ↔
    (∃ m, pending.get? k = some m) ∨ (table k).isSome = true := by
  cases h : pending.get? k with
  | none => rw [overlay_of_none h]; simp
  | some m => rw [overlay_of_some h]; simp

/-- Writing entries out, one after the other. -/
def writeOut (stored : μ → ν) (entries : List (κ × μ)) (table : κ → Option ν) : κ → Option ν :=
  entries.foldl (fun rows (e : κ × μ) => Function.update rows e.1 (some (stored e.2))) table

theorem writeOut_of_notMem {entries : List (κ × μ)} (hk : k ∉ entries.map Prod.fst)
    (table : κ → Option ν) : writeOut stored entries table k = table k := by
  induction entries generalizing table with
  | nil => rfl
  | cons e entries ih =>
      rw [List.map_cons, List.mem_cons, not_or] at hk
      exact (ih hk.2 _).trans (Function.update_of_ne hk.1 _ _)

theorem writeOut_of_mem {entries : List (κ × μ)} (hnodup : (entries.map Prod.fst).Nodup) {m : μ}
    (hk : (k, m) ∈ entries) (table : κ → Option ν) :
    writeOut stored entries table k = some (stored m) := by
  induction entries generalizing table with
  | nil => cases hk
  | cons e entries ih =>
      rw [List.map_cons, List.nodup_cons] at hnodup
      rcases List.mem_cons.mp hk with rfl | hk
      · exact (writeOut_of_notMem hnodup.1 _).trans (Function.update_self _ _ _)
      · exact ih hnodup.2 hk _

/-- The entries of a buffer may be written out in any order. -/
theorem writeOut_perm {entries : List (κ × μ)} (hperm : entries.Perm pending.entries)
    (table : κ → Option ν) : writeOut stored entries table = overlay stored table pending := by
  have hnodup : (entries.map Prod.fst).Nodup :=
    ((hperm.map Prod.fst).nodup_iff).mpr pending.nodup
  funext k
  cases hget : pending.get? k with
  | none =>
      have hk : k ∉ entries.map Prod.fst := by
        intro hmem
        obtain ⟨⟨j, m⟩, hentry, rfl⟩ := List.mem_map.mp hmem
        rw [Dict.mem_entries.mp (hperm.mem_iff.mp hentry)] at hget
        cases hget
      rw [writeOut_of_notMem hk, overlay_of_none hget]
  | some m =>
      have hk : (k, m) ∈ entries := hperm.mem_iff.mpr (Dict.mem_entries.mpr hget)
      rw [writeOut_of_mem hnodup hk, overlay_of_some hget]

end Overlay

/-! ## Slices -/

section Slices

variable {α : Type*}

/-- The pieces `items[offset : offset + size]` for `offset` in `range(0, len(items), size)`. -/
def slices (size : Nat) (items : List α) : List (List α) :=
  (List.range ((items.length + size - 1) / size)).map fun k => (items.drop (size * k)).take size

theorem flatMap_slices_range (size : Nat) (items : List α) (n : Nat) :
    ((List.range n).map fun k => (items.drop (size * k)).take size).flatten =
      items.take (size * n) := by
  induction n with
  | zero => rfl
  | succ n ih =>
      rw [List.range_succ, List.map_append, List.flatten_append, ih, List.map_singleton,
        List.flatten_singleton, Nat.mul_succ, List.take_add]

/-- The pieces make up the list. -/
theorem flatten_slices {size : Nat} (hsize : 0 < size) (items : List α) :
    (slices size items).flatten = items := by
  rw [slices, flatMap_slices_range, List.take_of_length_le]
  have hdiv := Nat.div_add_mod (items.length + size - 1) size
  have hmod := Nat.mod_lt (items.length + size - 1) hsize
  omega

theorem slices_map {β : Type*} (f : α → β) (size : Nat) (items : List α) :
    slices size (items.map f) = (slices size items).map (List.map f) := by
  unfold slices
  rw [List.length_map, List.map_map]
  refine List.map_congr_left fun k _ => ?_
  rw [Function.comp_apply, List.map_take, List.map_drop]

end Slices

end Basis
