import Mathlib.Data.List.TakeWhile
import Mathlib.Data.List.InsertIdx
import Mathlib.Data.List.Sort

/-!
# Binary search for the place of an insertion

`bisectRight` is the loop of Python's `bisect_right`. Where the greater items come last, it ends at
the first of them (`bisectRight_eq`), so an insertion there is one between the items that are not
greater and the greater ones (`insertIdx_bisectRight`).
-/

namespace Basis

variable {α : Type*} (greater : α → Bool)

/-- The loop of `bisect_right`; `greater item` stands for `x < item`. -/
def bisectRight (items : List α) (lo hi : Nat) : Nat :=
  if lo < hi then
    let mid := (lo + hi) / 2
    match items[mid]? with
    | some item =>
        if greater item then bisectRight items lo mid else bisectRight items (mid + 1) hi
    | none => lo
  else lo
termination_by hi - lo

/-- The greater items come last. -/
def GreaterLast (items : List α) : Prop :=
  items.Pairwise fun a b => greater a = true → greater b = true

variable {greater} {items : List α}

/-- An item is greater exactly when it stands behind those that are not. -/
theorem greater_iff (h : GreaterLast greater items) {i : Nat} {item : α}
    (hitem : items[i]? = some item) :
    greater item = true ↔ (items.takeWhile fun item => !greater item).length ≤ i := by
  induction items generalizing i with
  | nil => cases hitem
  | cons first rest ih =>
      obtain ⟨hfirst, hrest⟩ := List.pairwise_cons.mp h
      cases hgreater : greater first with
      | true =>
          rw [List.takeWhile_cons_of_neg (by simp [hgreater])]
          have hall : ∀ other ∈ first :: rest, greater other = true := by
            intro other hother
            obtain rfl | hother := List.mem_cons.mp hother
            · exact hgreater
            · exact hfirst other hother hgreater
          exact iff_of_true (hall item (List.mem_of_getElem? hitem)) (Nat.zero_le i)
      | false =>
          rw [List.takeWhile_cons_of_pos (by simp [hgreater]), List.length_cons]
          cases i with
          | zero =>
              rw [List.getElem?_cons_zero, Option.some_inj] at hitem
              rw [← hitem, hgreater]
              simp
          | succ i =>
              rw [List.getElem?_cons_succ] at hitem
              rw [ih hrest hitem, Nat.add_le_add_iff_right]

/-- The loop keeps the first greater item between its two indices. -/
theorem bisectRight_eq (h : GreaterLast greater items) {lo hi : Nat}
    (hlo : lo ≤ (items.takeWhile fun item => !greater item).length)
    (hhi : (items.takeWhile fun item => !greater item).length ≤ hi) (hlen : hi ≤ items.length) :
    bisectRight greater items lo hi = (items.takeWhile fun item => !greater item).length := by
  induction lo, hi using bisectRight.induct greater items with
  | case1 lo hi hlt mid item hitem hgreater ih =>
      have hle := (greater_iff h hitem).mp hgreater
      rw [bisectRight, if_pos hlt]
      simp only [hitem, hgreater, if_true, mid]
      exact ih hlo hle (by omega)
  | case2 lo hi hlt mid item hitem hgreater ih =>
      have hle : mid < (items.takeWhile fun item => !greater item).length :=
        not_le.mp fun hle => hgreater ((greater_iff h hitem).mpr hle)
      rw [bisectRight, if_pos hlt]
      simp only [hitem, hgreater, mid]
      exact ih hle hhi hlen
  | case3 lo hi hlt mid hnone =>
      have hlen' := List.getElem?_eq_none_iff.mp hnone
      omega
  | case4 lo hi hge =>
      rw [bisectRight, if_neg hge]
      omega

theorem insertIdx_length_append (first rest : List α) (x : α) :
    (first ++ rest).insertIdx first.length x = first ++ x :: rest := by
  induction first with
  | nil => rfl
  | cons head first ih =>
      rw [List.cons_append, List.length_cons, List.insertIdx_succ_cons, ih, List.cons_append]

/-- The item goes behind the ones that are not greater. -/
theorem insertIdx_bisectRight (h : GreaterLast greater items) (x : α) :
    items.insertIdx (bisectRight greater items 0 items.length) x =
      (items.takeWhile fun item => !greater item) ++
        x :: items.dropWhile fun item => !greater item := by
  rw [bisectRight_eq h (Nat.zero_le _) (List.takeWhile_sublist _).length_le le_rfl]
  have hsplit := List.takeWhile_append_dropWhile (p := fun item => !greater item) (l := items)
  calc _ = ((items.takeWhile fun item => !greater item) ++
        items.dropWhile fun item => !greater item).insertIdx
          (items.takeWhile fun item => !greater item).length x := by rw [hsplit]
    _ = _ := insertIdx_length_append _ _ x

end Basis
