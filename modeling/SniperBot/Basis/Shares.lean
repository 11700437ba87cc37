import Mathlib.Algebra.BigOperators.Ring.List
import Mathlib.Algebra.Order.BigOperators.Group.List
import Mathlib.Algebra.Order.Field.Basic
import Mathlib.Tactic.Linarith

/-!
# Shares and weighted means

Lists of non-negative numbers: parts of their sum, the sum of their squares against the greatest of
them, and the mean of values under non-negative weights, which lies between two of the values.
-/

namespace Basis

variable {K : Type} [Field K] [LinearOrder K]

/-- Shares of a whole, the greatest one first. -/
structure Ranked (shares : List K) : Prop where
  nonneg : ∀ share ∈ shares, 0 ≤ share
  sorted : shares.Pairwise (· ≥ ·)
  sum_le : shares.sum ≤ 1

theorem Ranked.top_nonneg {shares : List K} (h : Ranked shares) : 0 ≤ shares.head?.getD 0 := by
  cases shares with
  | nil => exact le_rfl
  | cons top rest => exact h.nonneg top List.mem_cons_self

theorem Ranked.le_top {shares : List K} (h : Ranked shares) :
    ∀ share ∈ shares, share ≤ shares.head?.getD 0 := by
  intro share hshare
  cases shares with
  | nil => exact absurd hshare List.not_mem_nil
  | cons top rest =>
      rcases List.mem_cons.mp hshare with rfl | hrest
      · exact le_rfl
      · exact (List.pairwise_cons.mp h.sorted).1 share hrest

variable [IsStrictOrderedRing K] {ι : Type}

/-! ## Sums -/

theorem sum_take_le {shares : List K} (h : ∀ share ∈ shares, 0 ≤ share) (n : ℕ) :
    (shares.take n).sum ≤ shares.sum :=
  List.Sublist.sum_le_sum (List.take_sublist _ _) h

/-- Squares sum to no more than the greatest number makes of the sum. -/
theorem sum_sq_le {shares : List K} {top : K} (h : ∀ share ∈ shares, 0 ≤ share ∧ share ≤ top) :
    (shares.map fun share => share * share).sum ≤ top * shares.sum := by
  induction shares with
  | nil => simp
  | cons share shares ih =>
      obtain ⟨⟨hnonneg, hle⟩, hrest⟩ := List.forall_mem_cons.mp h
      rw [List.map_cons, List.sum_cons, List.sum_cons, mul_add]
      exact add_le_add (mul_le_mul_of_nonneg_right hle hnonneg) (ih hrest)

theorem sq_le_sum_sq {shares : List K} {share : K} (h : share ∈ shares) :
    share * share ≤ (shares.map fun share => share * share).sum := by
  refine List.single_le_sum (fun square hsquare => ?_) _ (List.mem_map_of_mem h)
  obtain ⟨other, -, rfl⟩ := List.mem_map.mp hsquare
  exact mul_self_nonneg other

/-- One of the values is at most their weighted mean. -/
theorem exists_mul_sum_le {items : List ι} {weight : ι → K} (value : ι → K) (hne : items ≠ [])
    (h : ∀ item ∈ items, 0 ≤ weight item) :
    ∃ item ∈ items, value item * (items.map weight).sum ≤
      (items.map fun item => value item * weight item).sum := by
  induction items with
  | nil => exact absurd rfl hne
  | cons item items ih =>
      obtain ⟨hitem, hrest⟩ := List.forall_mem_cons.mp h
      simp only [List.map_cons, List.sum_cons]
      have hsum : 0 ≤ (items.map weight).sum := List.sum_nonneg fun w hw => by
        obtain ⟨other, hother, rfl⟩ := List.mem_map.mp hw
        exact hrest other hother
      by_cases hnil : items = []
      · subst hnil
        exact ⟨item, List.mem_cons_self, by simp⟩
      · obtain ⟨other, hmem, hother⟩ := ih hnil hrest
        rcases le_total (value item) (value other) with hle | hle
        · refine ⟨item, List.mem_cons_self, ?_⟩
          rw [mul_add]
          exact add_le_add_right ((mul_le_mul_of_nonneg_right hle hsum).trans hother) _
        · refine ⟨other, List.mem_cons_of_mem _ hmem, ?_⟩
          rw [mul_add]
          exact add_le_add (mul_le_mul_of_nonneg_right hle hitem) hother

/-- A mean under weights lies between two of the values. -/
theorem exists_mean_between {items : List ι} {weight value : ι → K}
    (h : ∀ item ∈ items, 0 ≤ weight item) (hsum : 0 < (items.map weight).sum) :
    (∃ low ∈ items, value low ≤
        (items.map fun item => value item * weight item).sum / (items.map weight).sum) ∧
      ∃ high ∈ items,
        (items.map fun item => value item * weight item).sum / (items.map weight).sum ≤
          value high := by
  have hne : items ≠ [] := by
    rintro rfl
    exact absurd hsum (lt_irrefl _)
  obtain ⟨low, hlow, hle⟩ := exists_mul_sum_le value hne h
  obtain ⟨high, hhigh, hge⟩ := exists_mul_sum_le (fun item => -value item) hne h
  refine ⟨⟨low, hlow, (le_div_iff₀ hsum).mpr hle⟩, high, hhigh, (div_le_iff₀ hsum).mpr ?_⟩
  have hneg : (items.map fun item => -value item * weight item).sum =
      -(items.map fun item => value item * weight item).sum := by
    rw [List.sum_neg, List.map_map]
    exact congrArg List.sum (List.map_congr_left fun item _ => neg_mul _ _)
  rw [hneg, neg_mul] at hge
  exact neg_le_neg_iff.mp hge

/-! ## Ranked shares -/

theorem ranked_nil : Ranked ([] : List K) := ⟨by simp, List.Pairwise.nil, by simp⟩

/-- Amounts in descending order, each as a share of their sum. -/
theorem ranked_div {amounts : List K} (h : ∀ amount ∈ amounts, 0 ≤ amount)
    (hsorted : amounts.Pairwise (· ≥ ·)) (hsum : 0 < amounts.sum) :
    Ranked (amounts.map (· / amounts.sum)) where
  nonneg share hshare := by
    obtain ⟨amount, hamount, rfl⟩ := List.mem_map.mp hshare
    exact div_nonneg (h amount hamount) hsum.le
  sorted := List.pairwise_map.mpr
    (hsorted.imp fun hge => div_le_div_of_nonneg_right hge hsum.le)
  sum_le := by
    simp only [div_eq_mul_inv]
    rw [List.sum_map_mul_right, List.map_id'', mul_inv_cancel₀ hsum.ne']
    exact fun _ => rfl

section Ranked

variable {shares : List K} (h : Ranked shares)

include h

theorem Ranked.top_le_take {n : ℕ} (hn : 0 < n) :
    shares.head?.getD 0 ≤ (shares.take n).sum := by
  cases shares with
  | nil => simp
  | cons top rest =>
      refine List.single_le_sum (fun share hshare => h.nonneg share (List.mem_of_mem_take hshare))
        _ ?_
      obtain ⟨m, rfl⟩ := Nat.exists_eq_add_of_le' hn
      exact List.mem_cons_self

theorem Ranked.take_le (n : ℕ) : (shares.take n).sum ≤ 1 := (sum_take_le h.nonneg n).trans h.sum_le

/-- The sum of the squares lies between the square of the greatest share and the share itself. -/
theorem Ranked.sum_sq_between :
    shares.head?.getD 0 * shares.head?.getD 0 ≤ (shares.map fun share => share * share).sum ∧
      (shares.map fun share => share * share).sum ≤ shares.head?.getD 0 := by
  constructor
  · cases shares with
    | nil => simp
    | cons top rest => exact sq_le_sum_sq List.mem_cons_self
  · exact (sum_sq_le fun share hshare => ⟨h.nonneg share hshare, h.le_top share hshare⟩).trans
      (mul_le_of_le_one_right h.top_nonneg h.sum_le)

end Ranked

end Basis
