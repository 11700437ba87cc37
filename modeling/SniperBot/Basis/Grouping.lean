import SniperBot.Basis.Dict

/-!
# Grouping a list by a key

`group key values` is the loop `grouped.setdefault(key, []).append(value)`: the groups stand in the
order in which their keys occur first, and each keeps the order of the list.
-/

namespace Basis

namespace Dict

variable {κ α : Type*} [DecidableEq κ]

/-- `d.setdefault(k, []).append(a)` -/
def append (d : Dict κ (List α)) (k : κ) (a : α) : Dict κ (List α) :=
  d.set k ((d.get? k).getD [] ++ [a])

/-- The groups of a list. -/
def group (key : α → κ) (values : List α) : Dict κ (List α) :=
  values.foldl (fun d a => d.append (key a) a) empty

theorem append_perm (d : Dict κ (List α)) (k : κ) (a : α) :
    ((d.append k a).entries.flatMap Prod.snd).Perm (a :: d.entries.flatMap Prod.snd) := by
  obtain ⟨es, hn⟩ := d
  simp only [append, get?, set]
  clear hn
  induction es with
  | nil => exact List.Perm.refl _
  | cons e es ih =>
      by_cases he : e.1 = k
      · simp only [find, put, he, if_true, Option.getD_some, List.flatMap_cons]
        rw [List.append_assoc, List.singleton_append]
        exact List.perm_middle
      · simp only [find, put, he, if_false, List.flatMap_cons]
        exact (ih.append_left _).trans List.perm_middle

/-- The groups hold the values of the list. -/
theorem group_perm (key : α → κ) (values : List α) :
    ((group key values).entries.flatMap Prod.snd).Perm values := by
  have hfold : ∀ d : Dict κ (List α),
      ((values.foldl (fun d a => d.append (key a) a) d).entries.flatMap Prod.snd).Perm
        (d.entries.flatMap Prod.snd ++ values) := by
    induction values with
    | nil => exact fun d => by rw [List.append_nil]; exact List.Perm.refl _
    | cons a values ih =>
        intro d
        refine (ih _).trans (((append_perm d (key a) a).append_right values).trans ?_)
        rw [List.cons_append]
        exact List.perm_middle.symm
  exact hfold empty

theorem get?_append (d : Dict κ (List α)) (k j : κ) (a : α) :
    ((d.append k a).get? j).getD [] =
      (d.get? j).getD [] ++ if k = j then [a] else [] := by
  rw [append, get?_set]
  split
  · rename_i hk
    rw [hk, Option.getD_some]
  · rw [List.append_nil]

/-- A group holds the values of its key, in their order. -/
theorem get?_group (key : α → κ) (values : List α) (k : κ) :
    ((group key values).get? k).getD [] = values.filter fun a => key a = k := by
  have hfold : ∀ d : Dict κ (List α),
      ((values.foldl (fun d a => d.append (key a) a) d).get? k).getD [] =
        (d.get? k).getD [] ++ values.filter fun a => key a = k := by
    induction values with
    | nil => exact fun d => (List.append_nil _).symm
    | cons a values ih =>
        intro d
        rw [List.foldl_cons, ih, get?_append, List.append_assoc, List.filter_cons]
        by_cases hk : key a = k
        · simp [hk]
        · simp [hk]
  exact hfold empty

/-- No group is empty. -/
theorem group_ne_nil (key : α → κ) (values : List α) {k : κ} {members : List α}
    (h : (k, members) ∈ (group key values).entries) : members ≠ [] := by
  have hfold : ∀ (values : List α) (d : Dict κ (List α)), (∀ j w, d.get? j = some w → w ≠ []) →
      ∀ j w, (values.foldl (fun d a => d.append (key a) a) d).get? j = some w → w ≠ [] := by
    intro values
    induction values with
    | nil => exact fun d hd => hd
    | cons a values ih =>
        intro d hd
        refine ih (d.append (key a) a) fun j w hw => ?_
        rw [append, get?_set] at hw
        split at hw
        · cases hw
          exact List.append_ne_nil_of_right_ne_nil _ (List.cons_ne_nil a [])
        · exact hd j w hw
  exact hfold values empty (fun j w hw => by cases hw) k members (mem_entries.mp h)

/-- The entry of a group holds the values of its key. -/
theorem mem_group {key : α → κ} {values : List α} {k : κ} {members : List α}
    (h : (k, members) ∈ (group key values).entries) :
    members = values.filter fun a => key a = k := by
  rw [← get?_group, mem_entries.mp h, Option.getD_some]

/-- The keys of the groups are those of the values. -/
theorem mem_keys_group {key : α → κ} {values : List α} {k : κ} :
    k ∈ (group key values).keys ↔ ∃ a ∈ values, key a = k := by
  rw [mem_keys]
  constructor
  · rintro ⟨members, hget⟩
    have hmem := mem_entries.mpr hget
    obtain ⟨a, ha⟩ := List.exists_mem_of_ne_nil _ (group_ne_nil key values hmem)
    obtain ⟨ha, hkey⟩ := List.mem_filter.mp (mem_group hmem ▸ ha)
    exact ⟨a, ha, of_decide_eq_true hkey⟩
  · rintro ⟨a, ha, hkey⟩
    have hmember : a ∈ values.filter fun a => key a = k :=
      List.mem_filter.mpr ⟨ha, decide_eq_true hkey⟩
    cases hget : (group key values).get? k with
    | some members => exact ⟨members, rfl⟩
    | none =>
        rw [← get?_group, hget] at hmember
        cases hmember

/-- A group is the part of the list with its key. -/
theorem entries_group (key : α → κ) (values : List α) :
    (group key values).entries =
      (group key values).keys.map fun k => (k, values.filter fun a => key a = k) := by
  rw [keys, List.map_map]
  refine (List.map_id _).symm.trans (List.map_congr_left fun entry hentry => ?_)
  exact Prod.ext rfl (mem_group hentry)

theorem keys_append (d : Dict κ (List α)) (k : κ) (a : α) :
    (d.append k a).keys = if k ∈ d.keys then d.keys else d.keys ++ [k] :=
  put_keys d.entries k _

/-- The order of the groups is that of the keys. -/
theorem keys_group_congr {key : α → κ} {values others : List α}
    (h : values.map key = others.map key) : (group key values).keys = (group key others).keys := by
  have hfold : ∀ (values : List α) (d : Dict κ (List α)),
      (values.foldl (fun d a => d.append (key a) a) d).keys =
        (values.map key).foldl (fun ks k => if k ∈ ks then ks else ks ++ [k]) d.keys := by
    intro values
    induction values with
    | nil => exact fun d => rfl
    | cons a values ih => exact fun d => by rw [List.foldl_cons, ih, keys_append]; rfl
  unfold group
  rw [hfold, hfold, h]

end Dict

end Basis
