import Mathlib.Algebra.BigOperators.Group.Finset.Basic
import Mathlib.Algebra.BigOperators.Group.List.Basic
import Mathlib.Algebra.Order.BigOperators.Group.Finset
import Mathlib.Data.List.Nodup

/-!
# Insertion-ordered dictionaries

A finite map kept as a list of entries with pairwise different keys, in the order in which
the keys were first inserted: setting a key that is present replaces its value in place, a
new key goes to the end, and removing a key keeps the order of the others.

`total f d` adds a weight over all entries. The bookkeeping lemmas say how `get?`,
membership and `total` change under `set`, `erase` and `mapValues`.
-/

namespace Basis

/-- A dictionary whose entries have pairwise different keys. -/
structure Dict (κ ν : Type*) where
  entries : List (κ × ν)
  nodup : (entries.map Prod.fst).Nodup

namespace Dict

variable {κ ν μ : Type*}

/-- The empty dictionary. -/
def empty : Dict κ ν := ⟨[], List.nodup_nil⟩

def keys (d : Dict κ ν) : List κ := d.entries.map Prod.fst

def values (d : Dict κ ν) : List ν := d.entries.map Prod.snd

section Keyed

variable [DecidableEq κ]

/-! ## Association lists -/

/-- The first value stored under a key. -/
def find : List (κ × ν) → κ → Option ν
  | [], _ => none
  | e :: es, k => if e.1 = k then some e.2 else find es k

/-- Replace the value of a key in place, or append a new entry. -/
def put : List (κ × ν) → κ → ν → List (κ × ν)
  | [], k, v => [(k, v)]
  | e :: es, k, v => if e.1 = k then (k, v) :: es else e :: put es k v

theorem mem_of_find {es : List (κ × ν)} {k : κ} {v : ν} (h : find es k = some v) :
    (k, v) ∈ es := by
  induction es with
  | nil => cases h
  | cons e es ih =>
      by_cases he : e.1 = k
      · simp only [find, he, if_true, Option.some.injEq] at h
        exact List.mem_cons.mpr (Or.inl (by rw [← he, ← h]))
      · simp only [find, he, if_false] at h
        exact List.mem_cons_of_mem _ (ih h)

theorem find_of_mem {es : List (κ × ν)} (hn : (es.map Prod.fst).Nodup) {k : κ} {v : ν}
    (h : (k, v) ∈ es) : find es k = some v := by
  induction es with
  | nil => cases h
  | cons e es ih =>
      rw [List.map_cons, List.nodup_cons] at hn
      rcases List.mem_cons.mp h with rfl | h
      · simp [find]
      · have hne : e.1 ≠ k := by
          rintro rfl
          exact hn.1 (List.mem_map.mpr ⟨_, h, rfl⟩)
        simp only [find, hne, if_false]
        exact ih hn.2 h

theorem find_put (es : List (κ × ν)) (k j : κ) (v : ν) :
    find (put es k v) j = if k = j then some v else find es j := by
  induction es with
  | nil => simp [put, find]
  | cons e es ih =>
      by_cases he : e.1 = k
      · subst he
        by_cases hj : e.1 = j <;> simp [put, find, hj]
      · by_cases hj : e.1 = j
        · subst hj
          simp [put, find, he, Ne.symm he]
        · simp [put, find, he, hj, ih]

theorem put_keys (es : List (κ × ν)) (k : κ) (v : ν) :
    (put es k v).map Prod.fst =
      if k ∈ es.map Prod.fst then es.map Prod.fst else es.map Prod.fst ++ [k] := by
  induction es with
  | nil => simp [put]
  | cons e es ih =>
      by_cases he : e.1 = k
      · simp [put, he]
      · simp only [put, he, if_false, List.map_cons, ih, List.mem_cons, Ne.symm he, false_or]
        split <;> simp

theorem put_of_notMem {es : List (κ × ν)} {k : κ} (hk : k ∉ es.map Prod.fst) (v : ν) :
    put es k v = es ++ [(k, v)] := by
  induction es with
  | nil => rfl
  | cons e es ih =>
      rw [List.map_cons, List.mem_cons, not_or] at hk
      rw [put, if_neg (Ne.symm hk.1), ih hk.2, List.cons_append]

theorem put_nodup {es : List (κ × ν)} (hn : (es.map Prod.fst).Nodup) (k : κ) (v : ν) :
    ((put es k v).map Prod.fst).Nodup := by
  rw [put_keys]
  split
  · exact hn
  · rename_i hk
    exact List.nodup_append.mpr ⟨hn, List.nodup_singleton k, by
      rintro a ha b hb rfl
      exact hk (List.mem_singleton.mp hb ▸ ha)⟩

theorem put_put (es : List (κ × ν)) (k : κ) (v w : ν) : put (put es k v) k w = put es k w := by
  induction es with
  | nil => simp [put]
  | cons e es ih =>
      by_cases he : e.1 = k
      · simp [put, he]
      · simp [put, he, ih]

theorem put_find {es : List (κ × ν)} {k : κ} {v : ν} (h : find es k = some v) :
    put es k v = es := by
  induction es with
  | nil => cases h
  | cons e es ih =>
      by_cases he : e.1 = k
      · simp only [find, he, if_true, Option.some.injEq] at h
        simp [put, he, ← h, Prod.ext_iff]
      · simp only [find, he, if_false] at h
        simp [put, he, ih h]

/-! ## Operations -/

/-- `d.get(k)` -/
def get? (d : Dict κ ν) (k : κ) : Option ν := find d.entries k

/-- `k in d` -/
def contains (d : Dict κ ν) (k : κ) : Bool := (d.get? k).isSome

/-- `d[k] = v` -/
def set (d : Dict κ ν) (k : κ) (v : ν) : Dict κ ν := ⟨put d.entries k v, put_nodup d.nodup k v⟩

/-- `d.pop(k, None)` -/
def erase (d : Dict κ ν) (k : κ) : Dict κ ν :=
  ⟨d.entries.filter (fun e => e.1 ≠ k), (List.filter_sublist.map Prod.fst).nodup d.nodup⟩

/-- `d.setdefault(k, v)` -/
def setDefault (d : Dict κ ν) (k : κ) (v : ν) : Dict κ ν :=
  if d.contains k then d else d.set k v

/-- Replace every value, keeping the keys and their order. -/
def mapValues (f : κ → ν → μ) (d : Dict κ ν) : Dict κ μ :=
  ⟨d.entries.map (fun e => (e.1, f e.1 e.2)), by
    simpa [List.map_map, Function.comp_def] using d.nodup⟩

@[simp] theorem get?_empty (k : κ) : (empty : Dict κ ν).get? k = none := rfl

theorem get?_set (d : Dict κ ν) (k j : κ) (v : ν) :
    (d.set k v).get? j = if k = j then some v else d.get? j := find_put d.entries k j v

@[simp] theorem get?_set_self (d : Dict κ ν) (k : κ) (v : ν) : (d.set k v).get? k = some v := by
  rw [get?_set, if_pos rfl]

theorem get?_set_ne (d : Dict κ ν) {k j : κ} (h : k ≠ j) (v : ν) :
    (d.set k v).get? j = d.get? j := by rw [get?_set, if_neg h]

@[simp] theorem set_set (d : Dict κ ν) (k : κ) (v w : ν) : (d.set k v).set k w = d.set k w := by
  simp [set, put_put]

theorem set_get? {d : Dict κ ν} {k : κ} {v : ν} (h : d.get? k = some v) : d.set k v = d := by
  simp [set, put_find h]

theorem get?_erase (d : Dict κ ν) (k j : κ) :
    (d.erase k).get? j = if k = j then none else d.get? j := by
  obtain ⟨es, hn⟩ := d
  simp only [get?, erase]
  clear hn
  induction es with
  | nil => simp [find]
  | cons e es ih =>
      by_cases he : e.1 = k
      · subst he
        by_cases hj : e.1 = j <;> simp_all [find]
      · by_cases hj : e.1 = j
        · subst hj
          simp [find, he, Ne.symm he]
        · simpa [find, he, hj] using ih

theorem get?_mapValues (f : κ → ν → μ) (d : Dict κ ν) (k : κ) :
    (d.mapValues f).get? k = (d.get? k).map (f k) := by
  obtain ⟨es, hn⟩ := d
  simp only [get?, mapValues]
  clear hn
  induction es with
  | nil => rfl
  | cons e es ih =>
      by_cases he : e.1 = k
      · simp [find, he]
      · simpa [find, he] using ih

theorem contains_eq_true {d : Dict κ ν} {k : κ} : d.contains k = true ↔ ∃ v, d.get? k = some v :=
  Option.isSome_iff_exists

theorem contains_eq_false {d : Dict κ ν} {k : κ} : d.contains k = false ↔ d.get? k = none := by
  simp [contains]

theorem mem_entries {d : Dict κ ν} {k : κ} {v : ν} : (k, v) ∈ d.entries ↔ d.get? k = some v :=
  ⟨find_of_mem d.nodup, mem_of_find⟩

theorem mem_values {d : Dict κ ν} {v : ν} : v ∈ d.values ↔ ∃ k, d.get? k = some v := by
  simp only [values, List.mem_map, ← mem_entries]
  exact ⟨fun ⟨e, he, hv⟩ => ⟨e.1, hv ▸ he⟩, fun ⟨k, hk⟩ => ⟨(k, v), hk, rfl⟩⟩

theorem mem_keys {d : Dict κ ν} {k : κ} : k ∈ d.keys ↔ ∃ v, d.get? k = some v := by
  simp only [keys, List.mem_map, ← mem_entries]
  exact ⟨fun ⟨e, he, hk⟩ => ⟨e.2, hk ▸ he⟩, fun ⟨v, hv⟩ => ⟨(k, v), hv, rfl⟩⟩

/-- Dictionaries with the same values at every key have the same entries. -/
theorem entries_perm {d d' : Dict κ ν} (h : ∀ k, d.get? k = d'.get? k) :
    d.entries.Perm d'.entries := by
  refine (List.perm_ext_iff_of_nodup (.of_map _ d.nodup) (.of_map _ d'.nodup)).mpr fun e => ?_
  rw [mem_entries (k := e.1), mem_entries (k := e.1), h]

/-- The only value with a property, when one key has all of them. -/
theorem filter_values_eq_singleton {p : ν → Bool} {d : Dict κ ν} {k : κ} {v : ν}
    (hget : d.get? k = some v) (hp : p v = true)
    (honly : ∀ j w, d.get? j = some w → p w = true → j = k) : d.values.filter p = [v] := by
  obtain ⟨before, after, hsplit⟩ := List.append_of_mem (mem_entries.mpr hget)
  have hnodup := d.nodup
  rw [hsplit, List.map_append, List.map_cons] at hnodup
  -- another entry with the property would have the same key
  have hother : ∀ e ∈ d.entries, e.1 ≠ k → p e.2 = false := by
    intro e he hne
    by_contra hpe
    exact hne (honly e.1 e.2 (mem_entries.mp he) (by simpa using hpe))
  have hbefore : ∀ e ∈ before, p e.2 = false := by
    intro e he
    refine hother e (by simp [hsplit, he]) ?_
    rintro rfl
    exact (List.nodup_append.mp hnodup).2.2 e.1 (List.mem_map_of_mem he) e.1 List.mem_cons_self rfl
  have hafter : ∀ e ∈ after, p e.2 = false := by
    intro e he
    refine hother e (by simp [hsplit, he]) ?_
    intro hkey
    exact (List.nodup_cons.mp (List.nodup_append.mp hnodup).2.1).1
      (List.mem_map.mpr ⟨e, he, hkey⟩)
  unfold values
  rw [hsplit, List.map_append, List.map_cons, List.filter_append, List.filter_cons, if_pos hp,
    List.filter_eq_nil_iff.mpr, List.filter_eq_nil_iff.mpr]
  · rfl
  · intro w hw
    obtain ⟨e, he, rfl⟩ := List.mem_map.mp hw
    simp [hafter e he]
  · intro w hw
    obtain ⟨e, he, rfl⟩ := List.mem_map.mp hw
    simp [hbefore e he]

/-! ## Loops over a dictionary -/

/-- Change the value of a key that is present. -/
def update (d : Dict κ ν) (k : κ) (f : ν → ν) : Dict κ ν :=
  match d.get? k with
  | none => d
  | some v => d.set k (f v)

theorem get?_update (d : Dict κ ν) (k j : κ) (f : ν → ν) :
    (d.update k f).get? j = if k = j then (d.get? j).map f else d.get? j := by
  unfold update
  by_cases hk : k = j
  · subst hk
    rw [if_pos rfl]
    cases hget : d.get? k with
    | none => exact hget
    | some v => exact get?_set_self d k (f v)
  · rw [if_neg hk]
    split
    · rfl
    · exact get?_set_ne d hk _

theorem get?_setDefault (d : Dict κ ν) (k : κ) (v : ν) :
    (d.setDefault k v).get? k = some ((d.get? k).getD v) := by
  unfold setDefault
  split
  · rename_i hcontains
    obtain ⟨w, hw⟩ := contains_eq_true.mp hcontains
    rw [hw, Option.getD_some]
  · rename_i hcontains
    rw [contains_eq_false.mp (Bool.eq_false_iff.mpr hcontains), Option.getD_none, get?_set_self]

theorem entries_set_new {d : Dict κ ν} {k : κ} (h : d.get? k = none) (v : ν) :
    (d.set k v).entries = d.entries ++ [(k, v)] := by
  obtain ⟨es, hn⟩ := d
  simp only [get?, set] at h ⊢
  clear hn
  induction es with
  | nil => rfl
  | cons e es ih =>
      by_cases he : e.1 = k
      · simp [find, he] at h
      · simp only [find, he, if_false] at h
        simp [put, he, ih h]

/-- Setting entries with new keys one after the other appends them. -/
theorem entries_foldl_set (es : List (κ × ν)) (d : Dict κ ν)
    (hn : ((d.entries ++ es).map Prod.fst).Nodup) :
    (es.foldl (fun d e => d.set e.1 e.2) d).entries = d.entries ++ es := by
  induction es generalizing d with
  | nil => exact (List.append_nil _).symm
  | cons e es ih =>
      have hnew : d.get? e.1 = none := by
        cases hget : d.get? e.1 with
        | none => rfl
        | some w =>
            have hmem := List.mem_map_of_mem (f := Prod.fst) (mem_entries.mpr hget)
            rw [List.map_append, List.nodup_append] at hn
            exact absurd rfl (hn.2.2 _ hmem _ List.mem_cons_self)
      have hset := entries_set_new hnew e.2
      have hall : (d.set e.1 e.2).entries ++ es = d.entries ++ e :: es := by
        rw [hset, List.append_assoc]
        rfl
      rw [List.foldl_cons, ih (d.set e.1 e.2) (hall ▸ hn), hall]

/-- The entries of a dictionary, set one after the other, give it back. -/
theorem foldl_set_entries (d : Dict κ ν) :
    d.entries.foldl (fun d e => d.set e.1 e.2) empty = d := by
  have h := entries_foldl_set d.entries empty (by simpa [empty] using d.nodup)
  obtain ⟨es, hn⟩ := d
  cases hfold : es.foldl (fun d e => d.set e.1 e.2) (empty : Dict κ ν) with
  | mk es' hn' =>
      rw [hfold] at h
      cases h
      rfl

theorem update_eq_set {d : Dict κ ν} {k : κ} {v : ν} (h : d.get? k = some v) (f : ν → ν) :
    d.update k f = d.set k (f v) := by
  simp [update, h]

@[simp] theorem update_set (d : Dict κ ν) (k : κ) (v : ν) (f : ν → ν) :
    (d.set k v).update k f = d.set k (f v) := by
  simp [update]

/-- A loop that updates pairwise different keys updates each of them once and no other. -/
theorem get?_foldl_update {ι : Type*} (key : ι → κ) (f : ι → ν → ν) (items : List ι)
    (hnodup : (items.map key).Nodup) (d : Dict κ ν) :
    (∀ item ∈ items, (items.foldl (fun e i => e.update (key i) (f i)) d).get? (key item) =
      (d.get? (key item)).map (f item)) ∧
    ∀ j, j ∉ items.map key →
      (items.foldl (fun e i => e.update (key i) (f i)) d).get? j = d.get? j := by
  induction items generalizing d with
  | nil => exact ⟨by simp, by simp⟩
  | cons i items ih =>
      rw [List.map_cons, List.nodup_cons] at hnodup
      obtain ⟨hitems, hothers⟩ := ih hnodup.2 (d.update (key i) (f i))
      rw [List.foldl_cons]
      constructor
      · intro item hitem
        rcases List.mem_cons.mp hitem with rfl | hmem
        · rw [hothers _ hnodup.1, get?_update, if_pos rfl]
        · have hne : key i ≠ key item := by
            intro heq
            exact hnodup.1 (heq ▸ List.mem_map_of_mem hmem)
          rw [hitems item hmem, get?_update, if_neg hne]
      · intro j hj
        rw [List.map_cons, List.mem_cons, not_or] at hj
        rw [hothers j hj.2, get?_update, if_neg (Ne.symm hj.1)]

/-- A loop of updates keeps every key. -/
theorem exists_foldl_update {ι : Type*} (key : ι → κ) (f : ι → ν → ν) (items : List ι)
    {d : Dict κ ν} {j : κ} (h : ∃ v, d.get? j = some v) :
    ∃ v, (items.foldl (fun e i => e.update (key i) (f i)) d).get? j = some v := by
  induction items generalizing d with
  | nil => exact h
  | cons i items ih =>
      refine ih ?_
      obtain ⟨v, hv⟩ := h
      rw [get?_update, hv]
      split
      · exact ⟨f i v, rfl⟩
      · exact ⟨v, rfl⟩

/-- A loop of updates keeps what none of them changes. -/
theorem map_get?_foldl_update {ι μ : Type*} (key : ι → κ) (f : ι → ν → ν) (kept : ν → μ)
    (hkept : ∀ i v, kept (f i v) = kept v) (items : List ι) (d : Dict κ ν) (j : κ) :
    ((items.foldl (fun e i => e.update (key i) (f i)) d).get? j).map kept =
      (d.get? j).map kept := by
  induction items generalizing d with
  | nil => rfl
  | cons i items ih =>
      rw [List.foldl_cons, ih, get?_update]
      split
      · rw [Option.map_map]
        exact congrArg (fun g => (d.get? j).map g) (funext (hkept i))
      · rfl

/-- A loop that rewrites the values of pairwise different keys, present or not. -/
theorem get?_foldl_set (f : κ → Option ν → ν) (keys : List κ) (hnodup : keys.Nodup)
    (d : Dict κ ν) (j : κ) :
    (keys.foldl (fun e k => e.set k (f k (e.get? k))) d).get? j =
      if j ∈ keys then some (f j (d.get? j)) else d.get? j := by
  induction keys generalizing d with
  | nil => simp
  | cons k keys ih =>
      rw [List.nodup_cons] at hnodup
      rw [List.foldl_cons, ih hnodup.2]
      by_cases hj : k = j
      · subst hj
        rw [if_neg hnodup.1, if_pos List.mem_cons_self, get?_set_self]
      · have hmem : j ∈ k :: keys ↔ j ∈ keys := by simp [Ne.symm hj]
        simp only [hmem, get?_set_ne d hj]

/-- A loop that removes keys. -/
theorem get?_foldl_erase (keys : List κ) (d : Dict κ ν) (j : κ) :
    (keys.foldl erase d).get? j = if j ∈ keys then none else d.get? j := by
  induction keys generalizing d with
  | nil => simp
  | cons k keys ih =>
      rw [List.foldl_cons, ih, get?_erase]
      by_cases hj : k = j
      · subst hj
        simp
      · simp [hj, Ne.symm hj]

/-- The entries with a property. -/
def filter (p : κ → ν → Bool) (d : Dict κ ν) : Dict κ ν :=
  ⟨d.entries.filter fun e => p e.1 e.2, d.nodup.sublist (List.filter_sublist.map _)⟩

theorem get?_filter (p : κ → ν → Bool) (d : Dict κ ν) (k : κ) :
    (d.filter p).get? k = (d.get? k).filter (p k) := by
  cases hget : d.get? k with
  | none =>
      rw [Option.filter_none]
      cases hfiltered : (d.filter p).get? k with
      | none => rfl
      | some v =>
          have hmem := (List.mem_filter.mp (mem_entries.mpr hfiltered)).1
          rw [mem_entries.mp hmem] at hget
          cases hget
  | some v =>
      have hmem := mem_entries.mpr hget
      by_cases hp : p k v = true
      · rw [Option.filter_some, if_pos hp]
        exact mem_entries.mp (List.mem_filter.mpr ⟨hmem, hp⟩)
      · rw [Option.filter_some, if_neg hp]
        cases hfiltered : (d.filter p).get? k with
        | none => rfl
        | some w =>
            obtain ⟨hw, hpw⟩ := List.mem_filter.mp (mem_entries.mpr hfiltered)
            rw [mem_entries.mp hw] at hget
            cases hget
            exact absurd hpw hp

/-- A loop that sets the key of each item that has a value. -/
def collect {ι : Type*} (key : ι → κ) (value : ι → Option ν) (items : List ι) (d : Dict κ ν) :
    Dict κ ν :=
  items.foldl (fun e i => match value i with | none => e | some v => e.set (key i) v) d

theorem get?_collect_of_notMem {ι : Type*} (key : ι → κ) (value : ι → Option ν)
    (items : List ι) {j : κ} (hj : j ∉ items.map key) (d : Dict κ ν) :
    (collect key value items d).get? j = d.get? j := by
  unfold collect
  induction items generalizing d with
  | nil => rfl
  | cons i items ih =>
      rw [List.map_cons, List.mem_cons, not_or] at hj
      rw [List.foldl_cons, ih hj.2]
      split
      · rfl
      · exact get?_set_ne d (Ne.symm hj.1) _

/-- A key none of whose items has a value keeps its entry. -/
theorem get?_collect_of_none {ι : Type*} (key : ι → κ) (value : ι → Option ν) (items : List ι)
    {k : κ} (hnone : ∀ i ∈ items, key i = k → value i = none) (d : Dict κ ν) :
    (collect key value items d).get? k = d.get? k := by
  unfold collect
  induction items generalizing d with
  | nil => rfl
  | cons i items ih =>
      rw [List.foldl_cons, ih fun j hj => hnone j (List.mem_cons_of_mem _ hj)]
      cases hvalue : value i with
      | none => rfl
      | some v =>
          refine get?_set_ne d ?_ _
          intro hkey
          rw [hnone i List.mem_cons_self hkey] at hvalue
          cases hvalue

/-- What it stores is the value of an item, or was stored before. -/
theorem exists_of_get?_collect {ι : Type*} (key : ι → κ) (value : ι → Option ν) (items : List ι)
    {d : Dict κ ν} {k : κ} {v : ν} (hget : (collect key value items d).get? k = some v) :
    (∃ i ∈ items, key i = k ∧ value i = some v) ∨ d.get? k = some v := by
  induction items generalizing d with
  | nil => exact Or.inr hget
  | cons i items ih =>
      rcases ih hget with ⟨j, hj, hkey, hvalue⟩ | hold
      · exact Or.inl ⟨j, List.mem_cons_of_mem _ hj, hkey, hvalue⟩
      · dsimp only at hold
        cases hvalue : value i with
        | none =>
            rw [hvalue] at hold
            exact Or.inr hold
        | some w =>
            rw [hvalue] at hold
            dsimp only at hold
            rw [get?_set] at hold
            split at hold
            · rename_i hkey
              exact Or.inl ⟨i, List.mem_cons_self, hkey, hvalue.trans hold⟩
            · exact Or.inr hold

/-- For pairwise different keys it stores the value of each item that has one. -/
theorem get?_collect {ι : Type*} (key : ι → κ) (value : ι → Option ν) (items : List ι)
    (hnodup : (items.map key).Nodup) {item : ι} (hitem : item ∈ items) {v : ν}
    (hvalue : value item = some v) (d : Dict κ ν) :
    (collect key value items d).get? (key item) = some v := by
  induction items generalizing d with
  | nil => cases hitem
  | cons i items ih =>
      rw [List.map_cons, List.nodup_cons] at hnodup
      rcases List.mem_cons.mp hitem with rfl | hmem
      · refine (get?_collect_of_notMem key value items hnodup.1 _).trans ?_
        simp only [hvalue, get?_set_self]
      · exact ih hnodup.2 hmem _

/-- The items of a key that have a value have the same one. -/
theorem get?_collect_of_agree {ι : Type*} (key : ι → κ) (value : ι → Option ν) (items : List ι)
    {k : κ} {v : ν} (hagree : ∀ i ∈ items, ∀ w, value i = some w → key i = k → w = v)
    (d : Dict κ ν) (h : (∃ i ∈ items, key i = k ∧ value i = some v) ∨ d.get? k = some v) :
    (collect key value items d).get? k = some v := by
  induction items generalizing d with
  | nil => exact h.resolve_left (by rintro ⟨i, ⟨⟩, -⟩)
  | cons i items ih =>
      refine ih (fun j hj => hagree j (List.mem_cons_of_mem _ hj)) _ ?_
      cases hvalue : value i with
      | none =>
          rcases h with ⟨j, hj, hkey, hv⟩ | hd
          · rcases List.mem_cons.mp hj with rfl | hmem
            · rw [hvalue] at hv
              cases hv
            · exact Or.inl ⟨j, hmem, hkey, hv⟩
          · right
            simp only [hvalue]
            exact hd
      | some w =>
          by_cases hk : key i = k
          · obtain rfl := hagree i List.mem_cons_self w hvalue hk
            subst hk
            right
            simp only [hvalue, get?_set_self]
          · rcases h with ⟨j, hj, hkey, hv⟩ | hd
            · rcases List.mem_cons.mp hj with rfl | hmem
              · exact absurd hkey hk
              · exact Or.inl ⟨j, hmem, hkey, hv⟩
            · right
              simp only [hvalue, get?_set_ne d hk]
              exact hd

theorem length_set_le (d : Dict κ ν) (k : κ) (v : ν) :
    (d.set k v).entries.length ≤ d.entries.length + 1 := by
  obtain ⟨es, hn⟩ := d
  simp only [set]
  clear hn
  induction es with
  | nil => simp [put]
  | cons e es ih =>
      by_cases he : e.1 = k
      · simp [put, he]
      · simpa [put, he] using ih

/-- The loop adds at most one entry per item with a value. -/
theorem length_collect_le {ι : Type*} (key : ι → κ) (value : ι → Option ν) (items : List ι)
    (d : Dict κ ν) : (collect key value items d).entries.length ≤
      d.entries.length + (items.filter fun i => (value i).isSome).length := by
  unfold collect
  induction items generalizing d with
  | nil => simp
  | cons i items ih =>
      rw [List.foldl_cons, List.filter_cons]
      refine Nat.le_trans (ih _) ?_
      cases hvalue : value i with
      | none => simp
      | some v =>
          have hset := length_set_le d (key i) v
          simp only [Option.isSome_some, if_true, List.length_cons]
          omega

end Keyed

/-! ## Totals -/

/-- The sum of a weight over all entries. -/
def total {M : Type*} [AddCommMonoid M] (f : κ → ν → M) (d : Dict κ ν) : M :=
  (d.entries.map fun e => f e.1 e.2).sum

section Totals

variable {M : Type*} [AddCommMonoid M]

@[simp] theorem total_empty (f : κ → ν → M) : total f (empty : Dict κ ν) = 0 := rfl

theorem total_mapValues {ν' : Type*} (f : κ → ν' → M) (g : κ → ν → ν') (d : Dict κ ν) :
    total f (d.mapValues g) = total (fun k v => f k (g k v)) d := by
  simp [total, mapValues, List.map_map, Function.comp_def]

theorem total_add (f g : κ → ν → M) (d : Dict κ ν) :
    total (fun k v => f k v + g k v) d = total f d + total g d := List.sum_map_add

variable [DecidableEq κ]

theorem total_congr {f g : κ → ν → M} {d : Dict κ ν}
    (h : ∀ k v, d.get? k = some v → f k v = g k v) : total f d = total g d := by
  unfold total
  congr 1
  apply List.map_congr_left
  intro e he
  exact h e.1 e.2 (mem_entries.mp he)

/-- A new key adds its weight. -/
theorem total_set_new (f : κ → ν → M) {d : Dict κ ν} {k : κ} (h : d.get? k = none) (v : ν) :
    total f (d.set k v) = total f d + f k v := by
  obtain ⟨es, hn⟩ := d
  simp only [get?] at h
  simp only [total, set]
  clear hn
  induction es with
  | nil => simp [put]
  | cons e es ih =>
      have he : e.1 ≠ k := by
        intro he
        simp [find, he] at h
      simp only [find, he, if_false] at h
      simp only [put, he, if_false, List.map_cons, List.sum_cons, ih h, add_assoc]

/-- Replacing a value trades the old weight for the new one, also when the weight of the
replaced key changes at the same time. -/
theorem total_set_of_agree {f g : κ → ν → M} {d : Dict κ ν} {k : κ} {old : ν}
    (h : d.get? k = some old) (v : ν)
    (hagree : ∀ j w, j ≠ k → d.get? j = some w → f j w = g j w) :
    total f (d.set k v) + g k old = total g d + f k v := by
  obtain ⟨es, hn⟩ := d
  simp only [get?] at h hagree
  simp only [total, set]
  induction es with
  | nil => cases h
  | cons e es ih =>
      rw [List.map_cons, List.nodup_cons] at hn
      by_cases he : e.1 = k
      · simp only [find, he, if_true, Option.some.injEq] at h
        -- the tail does not hold the key again
        have htail : es.map (fun e => f e.1 e.2) = es.map (fun e => g e.1 e.2) := by
          apply List.map_congr_left
          intro e' he'
          have hne : e'.1 ≠ k := by
            intro heq
            exact hn.1 (List.mem_map.mpr ⟨e', he', heq.trans he.symm⟩)
          refine hagree e'.1 e'.2 hne ?_
          rw [find, if_neg (he ▸ Ne.symm hne)]
          exact find_of_mem hn.2 he'
        simp only [put, he, if_true, List.map_cons, List.sum_cons, h, htail]
        ac_rfl
      · simp only [find, he, if_false] at h
        have hhead : f e.1 e.2 = g e.1 e.2 := hagree e.1 e.2 he (by simp [find])
        have hrest : ∀ j w, j ≠ k → find es j = some w → f j w = g j w := by
          intro j w hj hw
          refine hagree j w hj ?_
          have hne : e.1 ≠ j := by
            rintro rfl
            exact hn.1 (List.mem_map.mpr ⟨_, mem_of_find hw, rfl⟩)
          rw [find, if_neg hne]
          exact hw
        simp only [put, he, if_false, List.map_cons, List.sum_cons, hhead]
        rw [add_assoc, ih hn.2 h hrest, add_assoc]

theorem total_set_old (f : κ → ν → M) {d : Dict κ ν} {k : κ} {old : ν}
    (h : d.get? k = some old) (v : ν) :
    total f (d.set k v) + f k old = total f d + f k v :=
  total_set_of_agree h v fun _ _ _ _ => rfl

/-- What a key adds to a total. -/
def weight (f : κ → ν → M) (d : Dict κ ν) (k : κ) : M := ((d.get? k).map (f k)).getD 0

/-- A total is the sum of the weights over any set of keys that holds all of the dictionary's. -/
theorem total_eq_sum (f : κ → ν → M) (d : Dict κ ν) {keys : Finset κ}
    (hkeys : ∀ k v, d.get? k = some v → k ∈ keys) : total f d = ∑ k ∈ keys, weight f d k := by
  have hmap : (d.entries.map fun e => f e.1 e.2) = d.keys.map (weight f d) := by
    rw [Dict.keys, List.map_map]
    apply List.map_congr_left
    intro e he
    have hget : d.get? e.1 = some e.2 := mem_entries.mp he
    simp [weight, hget]
  calc total f d = (d.keys.map (weight f d)).sum := by rw [total, hmap]
    _ = ∑ k ∈ d.keys.toFinset, weight f d k := (List.sum_toFinset _ d.nodup).symm
    _ = ∑ k ∈ keys, weight f d k := by
        refine Finset.sum_subset (fun k hk => ?_) (fun k _ hk => ?_)
        · obtain ⟨v, hv⟩ := mem_keys.mp (List.mem_toFinset.mp hk)
          exact hkeys k v hv
        · cases hget : d.get? k with
          | none => simp [weight, hget]
          | some v => exact absurd (List.mem_toFinset.mpr (mem_keys.mpr ⟨v, hget⟩)) hk

/-- Dictionaries in which every key has the same weight have the same total. -/
theorem total_eq_total {f : κ → ν → M} {g : κ → μ → M} {d : Dict κ ν} {d' : Dict κ μ}
    (h : ∀ k, weight f d k = weight g d' k) : total f d = total g d' := by
  have hleft : ∀ k v, d.get? k = some v → k ∈ d.keys.toFinset ∪ d'.keys.toFinset :=
    fun k v hget => Finset.mem_union_left _ (List.mem_toFinset.mpr (mem_keys.mpr ⟨v, hget⟩))
  have hright : ∀ k v, d'.get? k = some v → k ∈ d.keys.toFinset ∪ d'.keys.toFinset :=
    fun k v hget => Finset.mem_union_right _ (List.mem_toFinset.mpr (mem_keys.mpr ⟨v, hget⟩))
  rw [total_eq_sum f d hleft, total_eq_sum g d' hright]
  exact Finset.sum_congr rfl fun k _ => h k

end Totals

/-! ## Counting -/

/-- The number of entries with a property is a total of ones and zeros. -/
theorem length_filter_entries (p : κ × ν → Bool) (d : Dict κ ν) :
    (d.entries.filter p).length = total (fun k v => if p (k, v) then 1 else 0) d := by
  obtain ⟨es, hn⟩ := d
  simp only [total]
  clear hn
  induction es with
  | nil => rfl
  | cons e es ih =>
      rw [List.filter_cons, List.map_cons, List.sum_cons, ← ih]
      split
      · rw [List.length_cons, Nat.add_comm]
      · rw [Nat.zero_add]

variable [DecidableEq κ]

/-- The values with a property are as many as those of another dictionary, if they stand at the
same keys. -/
theorem countP_values_eq {p : ν → Bool} {q : μ → Bool} {d : Dict κ ν} {d' : Dict κ μ}
    (h : ∀ k, (∃ v, d.get? k = some v ∧ p v = true) ↔ ∃ v, d'.get? k = some v ∧ q v = true) :
    d.values.countP p = d'.values.countP q := by
  rw [Dict.values, Dict.values, List.countP_map, List.countP_map, List.countP_eq_length_filter,
    List.countP_eq_length_filter, length_filter_entries, length_filter_entries]
  apply total_eq_total
  intro k
  have hk := h k
  simp only [weight, Function.comp_apply]
  cases hd : d.get? k <;> cases hd' : d'.get? k <;> simp_all

/-- No fewer values have the property, if every key with one in the first dictionary has one in the
second. -/
theorem countP_values_le {p : ν → Bool} {q : μ → Bool} {d : Dict κ ν} {d' : Dict κ μ}
    (h : ∀ k v, d.get? k = some v → p v = true → ∃ v', d'.get? k = some v' ∧ q v' = true) :
    d.values.countP p ≤ d'.values.countP q := by
  rw [Dict.values, Dict.values, List.countP_map, List.countP_map, List.countP_eq_length_filter,
    List.countP_eq_length_filter, length_filter_entries, length_filter_entries]
  have hleft : ∀ k v, d.get? k = some v → k ∈ d.keys.toFinset ∪ d'.keys.toFinset :=
    fun k v hget => Finset.mem_union_left _ (List.mem_toFinset.mpr (mem_keys.mpr ⟨v, hget⟩))
  have hright : ∀ k v, d'.get? k = some v → k ∈ d.keys.toFinset ∪ d'.keys.toFinset :=
    fun k v hget => Finset.mem_union_right _ (List.mem_toFinset.mpr (mem_keys.mpr ⟨v, hget⟩))
  rw [total_eq_sum _ d hleft, total_eq_sum _ d' hright]
  apply Finset.sum_le_sum
  intro k _
  simp only [weight, Function.comp_apply]
  cases hd : d.get? k with
  | none => simp
  | some v =>
      cases hp : p v with
      | false => simp [hp]
      | true =>
          obtain ⟨v', hv', hq⟩ := h k v hd hp
          simp [hv', hp, hq]

theorem length_filter_set_new (p : κ × ν → Bool) {d : Dict κ ν} {k : κ} (h : d.get? k = none)
    (v : ν) : ((d.set k v).entries.filter p).length =
      (d.entries.filter p).length + if p (k, v) then 1 else 0 := by
  rw [length_filter_entries, length_filter_entries]
  exact total_set_new _ h v

theorem length_filter_set_old (p : κ × ν → Bool) {d : Dict κ ν} {k : κ} {old : ν}
    (h : d.get? k = some old) (v : ν) :
    ((d.set k v).entries.filter p).length + (if p (k, old) then 1 else 0) =
      (d.entries.filter p).length + if p (k, v) then 1 else 0 := by
  rw [length_filter_entries, length_filter_entries]
  exact total_set_old _ h v

/-! ## Indexes of a list -/

/-- The dictionary holds exactly the key and the value of each row of one kind. -/
def Indexes {ι : Type*} (d : Dict κ ν) (rows : List ι) (kind : ι → Prop) (key : ι → κ)
    (value : ι → ν) : Prop :=
  ∀ k v, d.get? k = some v ↔ ∃ row ∈ rows, kind row ∧ key row = k ∧ value row = v

namespace Indexes

variable {ι : Type*} {d : Dict κ ν} {rows : List ι} {kind : ι → Prop} {key : ι → κ} {value : ι → ν}

theorem empty : Indexes (Dict.empty : Dict κ ν) [] kind key value := by
  intro k v
  simp

/-- A key that is not indexed has no row. -/
theorem notMem (h : Indexes d rows kind key value) {k : κ} (hnone : d.get? k = none) {row : ι}
    (hrow : row ∈ rows) (hkind : kind row) : key row ≠ k := by
  rintro rfl
  rw [(h _ _).mpr ⟨row, hrow, hkind, rfl, rfl⟩] at hnone
  cases hnone

/-- A key is indexed exactly when it has a row. -/
theorem contains_iff (h : Indexes d rows kind key value) (k : κ) :
    (∃ v, d.get? k = some v) ↔ ∃ row ∈ rows, kind row ∧ key row = k := by
  constructor
  · rintro ⟨v, hv⟩
    obtain ⟨row, hrow, hkind, hkey, -⟩ := (h k v).mp hv
    exact ⟨row, hrow, hkind, hkey⟩
  · rintro ⟨row, hrow, hkind, hkey⟩
    exact ⟨value row, (h k _).mpr ⟨row, hrow, hkind, hkey, rfl⟩⟩

theorem append (h : Indexes d rows kind key value) {row : ι} (hkind : kind row)
    (hnew : d.get? (key row) = none) :
    Indexes (d.set (key row) (value row)) (rows ++ [row]) kind key value := by
  intro k v
  rw [get?_set]
  by_cases hk : key row = k
  · subst hk
    rw [if_pos rfl, Option.some.injEq]
    constructor
    · intro hv
      exact ⟨row, List.mem_append_right _ (List.mem_singleton_self row), hkind, rfl, hv⟩
    · rintro ⟨other, hother, hkindOther, hkey, hv⟩
      rcases List.mem_append.mp hother with hold | hlast
      · exact absurd hkey (h.notMem hnew hold hkindOther)
      · rw [← hv, List.mem_singleton.mp hlast]
  · rw [if_neg hk, h k v]
    constructor
    · rintro ⟨other, hother, hrest⟩
      exact ⟨other, List.mem_append_left _ hother, hrest⟩
    · rintro ⟨other, hother, hkindOther, hkey, hv⟩
      rcases List.mem_append.mp hother with hold | hlast
      · exact ⟨other, hold, hkindOther, hkey, hv⟩
      · rw [List.mem_singleton.mp hlast] at hkey
        exact absurd hkey hk

theorem append_other (h : Indexes d rows kind key value) {row : ι} (hkind : ¬ kind row) :
    Indexes d (rows ++ [row]) kind key value := by
  intro k v
  rw [h k v]
  constructor
  · rintro ⟨other, hother, hrest⟩
    exact ⟨other, List.mem_append_left _ hother, hrest⟩
  · rintro ⟨other, hother, hkindOther, hrest⟩
    rcases List.mem_append.mp hother with hold | hlast
    · exact ⟨other, hold, hkindOther, hrest⟩
    · rw [List.mem_singleton.mp hlast] at hkindOther
      exact absurd hkindOther hkind

end Indexes

end Dict

end Basis
