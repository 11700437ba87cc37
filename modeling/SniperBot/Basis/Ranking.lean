import Mathlib.Data.List.Nodup
import Mathlib.Order.Basic
import Mathlib.Order.Defs.LinearOrder
import Mathlib.Data.List.Perm.Basic
import Mathlib.Data.List.Sort
import Mathlib.Data.Finset.Basic

/-!
# Sorting by a key

`sortedBy key items` is the stable sort by a key. A stable sort is determined by two facts: it is
sorted, and each key keeps its items in their order (`sortedBy_unique`). So sorting a sorted list
with further items gives the same as sorting all items at once (`sortedBy_append_sorted`).

`best n key items` are the first `n` of a sort. `IsBest` describes such a list without sorting:
everything outside comes after it. A list of the best can be kept when the key of one item
improves, whether it was among the best or not (`IsBest.promote`).
-/

namespace Basis

variable {α κ : Type*} [LinearOrder κ]

/-! ## Stable sorting -/

/-- `sorted(items, key=key)` -/
def sortedBy (key : α → κ) (items : List α) : List α :=
  items.insertionSort fun a b => key a ≤ key b

section Sorted

variable {key : α → κ}

instance keyTotal (key : α → κ) : Std.Total fun a b => key a ≤ key b :=
  ⟨fun a b => le_total (key a) (key b)⟩

instance keyTrans (key : α → κ) : IsTrans α fun a b => key a ≤ key b :=
  ⟨fun _ _ _ => le_trans⟩

theorem sortedBy_perm (key : α → κ) (items : List α) : (sortedBy key items).Perm items :=
  List.perm_insertionSort _ _

theorem mem_sortedBy {items : List α} {a : α} : a ∈ sortedBy key items ↔ a ∈ items :=
  (sortedBy_perm key items).mem_iff

theorem sortedBy_sorted (key : α → κ) (items : List α) :
    (sortedBy key items).Pairwise fun a b => key a ≤ key b :=
  List.pairwise_insertionSort _ items

/-- Items that are in order stay as they are. -/
theorem sortedBy_of_sorted {items : List α} (h : items.Pairwise fun a b => key a ≤ key b) :
    sortedBy key items = items := h.insertionSort_eq

/-- Items with different keys are sorted alike from every order. -/
theorem sortedBy_eq_of_perm {items items' : List α} (h : items.Perm items')
    (hkeys : (items.map key).Nodup) : sortedBy key items = sortedBy key items' := by
  have hperm := (sortedBy_perm key items).trans (h.trans (sortedBy_perm key items').symm)
  refine hperm.eq_of_pairwise (fun a b ha hb hab hba => ?_) (sortedBy_sorted key items)
    (sortedBy_sorted key items')
  have ha' := mem_sortedBy.mp ha
  have hb' := h.symm.mem_iff.mp (mem_sortedBy.mp hb)
  exact List.inj_on_of_nodup_map hkeys ha' hb' (le_antisymm hab hba)

/-- A list of values is sorted alike from every order. -/
theorem sortedBy_id_eq_of_perm {items items' : List κ} (h : items.Perm items') :
    sortedBy id items = sortedBy id items' := by
  have hperm := (sortedBy_perm id items).trans (h.trans (sortedBy_perm id items').symm)
  exact hperm.eq_of_pairwise (fun a b _ _ hab hba => le_antisymm hab hba) (sortedBy_sorted id items)
    (sortedBy_sorted id items')

/-- `sorted(s)` of a set -/
def ascending (s : Finset κ) : List κ :=
  Quot.liftOn s.val (sortedBy id) fun _ _ h => sortedBy_id_eq_of_perm h

@[simp] theorem mem_ascending {s : Finset κ} {a : κ} : a ∈ ascending s ↔ a ∈ s := by
  obtain ⟨⟨items⟩, _⟩ := s
  exact mem_sortedBy

@[simp] theorem toFinset_ascending (s : Finset κ) : (ascending s).toFinset = s := by
  ext a
  rw [List.mem_toFinset, mem_ascending]

theorem ascending_perm (s : Finset κ) : (ascending s).Perm s.toList := by
  obtain ⟨⟨items⟩, hn⟩ := s
  exact (sortedBy_perm id items).trans (Quotient.exact (Multiset.coe_toList _)).symm

theorem ascending_strict (s : Finset κ) : (ascending s).Pairwise (· < ·) := by
  have hnodup : (ascending s).Nodup := (ascending_perm s).nodup_iff.mpr s.nodup_toList
  have hsorted : (ascending s).Pairwise (· ≤ ·) := by
    obtain ⟨⟨items⟩, _⟩ := s
    exact sortedBy_sorted id items
  exact (List.pairwise_and_iff.mpr ⟨hsorted, hnodup⟩).imp fun h => lt_of_le_of_ne h.1 h.2

/-- The items of one key keep their order. -/
theorem filter_sortedBy (key : α → κ) (items : List α) (k : κ) :
    (sortedBy key items).filter (fun a => key a = k) = items.filter fun a => key a = k := by
  have hsorted : (items.filter fun a => key a = k).Pairwise fun a b => key a ≤ key b := by
    refine List.pairwise_iff_forall_sublist.mpr fun {a b} hab => ?_
    have ha := of_decide_eq_true (List.mem_filter.mp (hab.subset List.mem_cons_self)).2
    have hb := of_decide_eq_true
      (List.mem_filter.mp (hab.subset (List.mem_cons_of_mem _ List.mem_cons_self))).2
    exact (ha.trans hb.symm).le
  have hsub : (items.filter fun a => key a = k).Sublist (sortedBy key items) :=
    List.sublist_insertionSort hsorted List.filter_sublist
  have hfilter := hsub.filter fun a => decide (key a = k)
  rw [List.filter_filter, List.filter_congr (q := fun a => decide (key a = k)) (by simp)] at hfilter
  exact (hfilter.eq_of_length (((sortedBy_perm key items).filter _).length_eq.symm)).symm

/-- Sorted lists with the same items under each key, in the same order, are equal. -/
theorem eq_of_sorted_of_filter {l l' : List α} (hl : l.Pairwise fun a b => key a ≤ key b)
    (hl' : l'.Pairwise fun a b => key a ≤ key b)
    (h : ∀ k, l.filter (fun a => key a = k) = l'.filter fun a => key a = k) : l = l' := by
  induction l generalizing l' with
  | nil =>
      cases l' with
      | nil => rfl
      | cons b rest =>
          have hb := h (key b)
          rw [List.filter_nil, List.filter_cons, if_pos (decide_eq_true rfl)] at hb
          cases hb
  | cons a rest ih =>
      obtain ⟨hfirst, hrest⟩ := List.pairwise_cons.mp hl
      cases l' with
      | nil =>
          have ha := h (key a)
          rw [List.filter_nil, List.filter_cons, if_pos (decide_eq_true rfl)] at ha
          cases ha
      | cons b rest' =>
          obtain ⟨hfirst', hrest'⟩ := List.pairwise_cons.mp hl'
          -- each head is an item of the other list, so neither key is smaller
          have hmem : a ∈ b :: rest' := by
            have ha : a ∈ (a :: rest).filter fun x => key x = key a :=
              List.mem_filter.mpr ⟨List.mem_cons_self, decide_eq_true rfl⟩
            rw [h] at ha
            exact (List.mem_filter.mp ha).1
          have hmem' : b ∈ a :: rest := by
            have hb : b ∈ (b :: rest').filter fun x => key x = key b :=
              List.mem_filter.mpr ⟨List.mem_cons_self, decide_eq_true rfl⟩
            rw [← h] at hb
            exact (List.mem_filter.mp hb).1
          have hkey : key a = key b := by
            refine le_antisymm ?_ ?_
            · rcases List.mem_cons.mp hmem' with rfl | hb
              · exact le_rfl
              · exact hfirst b hb
            · rcases List.mem_cons.mp hmem with rfl | ha
              · exact le_rfl
              · exact hfirst' a ha
          have hhead := h (key a)
          rw [List.filter_cons, if_pos (decide_eq_true rfl), List.filter_cons,
            if_pos (decide_eq_true hkey.symm)] at hhead
          obtain ⟨rfl, -⟩ := List.cons.inj hhead
          refine congrArg (a :: ·) (ih hrest hrest' fun k => ?_)
          have hk := h k
          by_cases hak : key a = k
          · rw [List.filter_cons, if_pos (decide_eq_true hak), List.filter_cons,
              if_pos (decide_eq_true hak)] at hk
            exact (List.cons.inj hk).2
          · rwa [List.filter_cons_of_neg (by simpa using hak),
              List.filter_cons_of_neg (by simpa using hak)] at hk

/-- Items may be sorted before further items are added. -/
theorem sortedBy_append_sorted (key : α → κ) (items more : List α) :
    sortedBy key (sortedBy key items ++ more) = sortedBy key (items ++ more) := by
  refine eq_of_sorted_of_filter (sortedBy_sorted key _) (sortedBy_sorted key _) fun k => ?_
  rw [filter_sortedBy, filter_sortedBy, List.filter_append, List.filter_append, filter_sortedBy]

/-- An item that is not before the others goes to the end. -/
theorem sortedBy_concat {items : List α} {a : α} (h : ∀ b ∈ items, key b ≤ key a) :
    sortedBy key (items ++ [a]) = sortedBy key items ++ [a] := by
  rw [← sortedBy_append_sorted]
  refine sortedBy_of_sorted (List.pairwise_append.mpr ⟨sortedBy_sorted key items, ?_, ?_⟩)
  · exact List.pairwise_singleton _ _
  · intro b hb c hc
    rw [List.mem_singleton.mp hc]
    exact h b (mem_sortedBy.mp hb)

end Sorted

/-! ## The best items -/

/-- `sorted(items, key=key)[:n]` -/
def best (n : Nat) (key : α → κ) (items : List α) : List α := (sortedBy key items).take n

/-- A sorted list of items such that it is full and better than everything outside, or nothing is
outside. -/
structure IsBest (n : Nat) (key : α → κ) (items l : List α) : Prop where
  sorted : l.Pairwise fun a b => key a < key b
  mem : ∀ a ∈ l, a ∈ items
  length : l.length ≤ n
  rest : ∀ a ∈ items, a ∉ l → l.length = n ∧ ∀ b ∈ l, key b < key a

section Best

variable {key key' : α → κ} {n : Nat} {items l : List α}

theorem IsBest.nodup (h : IsBest n key items l) : l.Nodup :=
  h.sorted.imp fun {a b} hab heq => by
    subst heq
    exact lt_irrefl _ hab

/-- Different items with different keys are sorted strictly. -/
theorem sortedBy_strict (hkey : Function.Injective key) (hn : items.Nodup) :
    (sortedBy key items).Pairwise fun a b => key a < key b := by
  have hnodup : (sortedBy key items).Nodup := (sortedBy_perm key items).nodup_iff.mpr hn
  exact (List.pairwise_and_iff.mpr ⟨sortedBy_sorted key items, hnodup⟩).imp
    fun {a b} hab => lt_of_le_of_ne hab.1 fun heq => hab.2 (hkey heq)

theorem best_isBest (n : Nat) (hkey : Function.Injective key) (hn : items.Nodup) :
    IsBest n key items (best n key items) := by
  have hstrict := sortedBy_strict hkey hn
  have hsplit := List.take_append_drop n (sortedBy key items)
  refine ⟨hstrict.sublist (List.take_sublist _ _),
    fun a ha => mem_sortedBy.mp (List.mem_of_mem_take ha), List.length_take_le _ _, ?_⟩
  intro a ha hout
  have hdrop : a ∈ (sortedBy key items).drop n := by
    have hmem : a ∈ sortedBy key items := mem_sortedBy.mpr ha
    rw [← hsplit] at hmem
    exact (List.mem_append.mp hmem).resolve_left hout
  rw [← hsplit] at hstrict
  refine ⟨?_, fun b hb => (List.pairwise_append.mp hstrict).2.2 b hb a hdrop⟩
  have hlength := List.length_pos_of_mem hdrop
  rw [List.length_drop] at hlength
  rw [best, List.length_take]
  omega

/-- The description leaves no choice. -/
theorem IsBest.eq_best [DecidableEq α] (h : IsBest n key items l)
    (hkey : Function.Injective key) (hn : items.Nodup) : l = best n key items := by
  have hb := best_isBest n hkey hn
  -- neither list can have an item that the other lacks
  have hsub : ∀ {l₁ l₂ : List α}, IsBest n key items l₁ → IsBest n key items l₂ →
      ∀ a ∈ l₁, a ∈ l₂ := by
    intro l₁ l₂ h₁ h₂ a ha
    by_contra hout
    obtain ⟨hfull, hbefore⟩ := h₂.rest a (h₁.mem a ha) hout
    have hincluded : ∀ b ∈ l₂, b ∈ l₁.erase a := by
      intro b hb₂
      have hne : b ≠ a := fun heq => hout (heq ▸ hb₂)
      refine (List.mem_erase_of_ne hne).mpr ?_
      by_contra hb₁
      exact lt_asymm (hbefore b hb₂) ((h₁.rest b (h₂.mem b hb₂) hb₁).2 a ha)
    have hle := (List.subperm_of_subset h₂.nodup fun b hb => hincluded b hb).length_le
    rw [hfull, List.length_erase_of_mem ha] at hle
    have hpos := List.length_pos_of_mem ha
    have hmax := h₁.length
    omega
  have hperm : l.Perm (best n key items) :=
    (List.perm_ext_iff_of_nodup h.nodup hb.nodup).mpr fun a => ⟨hsub h hb a, hsub hb h a⟩
  exact hperm.eq_of_pairwise (fun a b _ _ hab hba => absurd hab (lt_asymm hba)) h.sorted hb.sorted

/-- Put an item into a list of the best again: in its place, unless the list is full and the last
item is better. -/
def promote [DecidableEq α] (n : Nat) (key : α → κ) (l : List α) (a : α) : List α :=
  let others := l.erase a
  if others.length < n ∨ ∃ last ∈ others.getLast?, key a < key last then
    best n key (others ++ [a])
  else others

/-- The last item of a sorted list is the greatest. -/
theorem le_getLast (h : l.Pairwise fun a b => key a < key b) {last : α}
    (hlast : l.getLast? = some last) {a : α} (ha : a ∈ l) : key a ≤ key last := by
  obtain ⟨front, rfl⟩ := List.getLast?_eq_some_iff.mp hlast
  rcases List.mem_append.mp ha with hfront | hend
  · exact ((List.pairwise_append.mp h).2.2 a hfront last (List.mem_singleton_self _)).le
  · rw [List.mem_singleton.mp hend]

/-- When the key of one item improves, or a new item comes in, promoting it keeps the list of the
best: an item that was dropped earlier can only come back with its own key. -/
theorem IsBest.promote [DecidableEq α] (h : IsBest n key items l) (a : α)
    (hsame : ∀ b, b ≠ a → key' b = key b) (hbetter : a ∈ items → key' a ≤ key a)
    (hkey' : Function.Injective key') (items' : List α)
    (hitems' : ∀ b, b ∈ items' ↔ b ∈ items ∨ b = a) :
    IsBest n key' items' (promote n key' l a) := by
  have hothers : ∀ b ∈ l.erase a, b ∈ l ∧ b ≠ a := fun b hb =>
    ⟨List.mem_of_mem_erase hb, fun heq => (h.nodup.not_mem_erase (heq ▸ hb))⟩
  have hsorted : (l.erase a).Pairwise fun b c => key' b < key' c := by
    refine (h.sorted.sublist List.erase_sublist).imp_of_mem fun {b c} hb hc hbc => ?_
    rw [hsame b (hothers b hb).2, hsame c (hothers c hc).2]
    exact hbc
  unfold Basis.promote
  dsimp only
  split
  · rename_i henter
    have hnodup : (l.erase a ++ [a]).Nodup :=
      List.nodup_append.mpr ⟨h.nodup.erase a, List.nodup_singleton a, fun b hb c hc heq =>
        (hothers b hb).2 (heq.trans (List.mem_singleton.mp hc))⟩
    have hbest := best_isBest n hkey' hnodup
    refine ⟨hbest.sorted, fun b hb => ?_, hbest.length, fun b hb hout => ?_⟩
    · rcases List.mem_append.mp (hbest.mem b hb) with hother | hself
      · exact (hitems' b).mpr (Or.inl (h.mem b (hothers b hother).1))
      · exact (hitems' b).mpr (Or.inr (List.mem_singleton.mp hself))
    · by_cases hcandidate : b ∈ l.erase a ++ [a]
      · exact hbest.rest b hcandidate hout
      · -- an item that was outside and stays outside
        have hne : b ≠ a := fun heq =>
          hcandidate (List.mem_append_right _ (List.mem_singleton.mpr heq))
        have hold : b ∉ l := fun hb' =>
          hcandidate (List.mem_append_left _ ((List.mem_erase_of_ne hne).mpr hb'))
        obtain ⟨hfull, hbefore⟩ :=
          h.rest b (((hitems' b).mp hb).resolve_right hne) hold
        have hself : key' a < key b := by
          by_cases ha : a ∈ l
          · exact (hbetter (h.mem a ha)).trans_lt (hbefore a ha)
          · rw [List.erase_of_not_mem ha] at henter
            obtain ⟨last, hlast, hlt⟩ := henter.resolve_left (by omega)
            have hmem := List.mem_of_mem_getLast? hlast
            rw [hsame last fun heq => ha (heq ▸ hmem)] at hlt
            exact hlt.trans (hbefore last hmem)
        refine ⟨?_, fun c hc => ?_⟩
        · rw [best, List.length_take, (sortedBy_perm key' _).length_eq, List.length_append,
            List.length_singleton]
          by_cases ha : a ∈ l
          · rw [List.length_erase_of_mem ha, hfull]
            omega
          · rw [List.erase_of_not_mem ha, hfull]
            omega
        · rw [hsame b hne]
          rcases List.mem_append.mp (hbest.mem c hc) with hother | hc
          · rw [hsame c (hothers c hother).2]
            exact hbefore c (hothers c hother).1
          · rw [List.mem_singleton.mp hc]
            exact hself
  · rename_i hstay
    obtain ⟨hroom, hlast⟩ := not_or.mp hstay
    -- the list was full without the item, so the item was not in it
    have ha : a ∉ l := by
      intro ha
      have hlength := h.length
      have hpos := List.length_pos_of_mem ha
      rw [List.length_erase_of_mem ha] at hroom
      omega
    have herase : l.erase a = l := List.erase_of_not_mem ha
    rw [herase] at hsorted hroom hlast ⊢
    have hfull : l.length = n := Nat.le_antisymm h.length (Nat.not_lt.mp hroom)
    have hworse : ∀ c ∈ l, key' c < key' a := by
      intro c hc
      cases hget : l.getLast? with
      | none =>
          rw [List.getLast?_eq_none_iff.mp hget] at hc
          cases hc
      | some last =>
          have hle : key' last ≤ key' a := not_lt.mp fun hlt => hlast ⟨last, hget, hlt⟩
          refine lt_of_le_of_ne ((le_getLast hsorted hget hc).trans hle) fun heq => ha ?_
          exact hkey' heq ▸ hc
    refine ⟨hsorted, fun b hb => (hitems' b).mpr (Or.inl (h.mem b hb)), h.length,
      fun b hb hout => ⟨hfull, fun c hc => ?_⟩⟩
    by_cases hba : b = a
    · rw [hba]
      exact hworse c hc
    · rw [hsame b hba, hsame c fun heq => ha (heq ▸ hc)]
      exact (h.rest b (((hitems' b).mp hb).resolve_right hba) hout).2 c hc

end Best

end Basis
