import Mathlib.Algebra.Order.Field.Basic
import Mathlib.Order.Bounds.Basic
import Mathlib.Tactic.Linarith
import Mathlib.Tactic.Positivity

/-!
# The deepest drop of a path

A drop of a path is the share that is lost from an entry to itself or a later one. A loop that keeps
the greatest entry and the greatest loss against it finds the deepest drop (`deepest_isGreatest`):
on a path without negative entries, the loss at an entry is greatest against the greatest entry
before it.
-/

namespace Basis

variable {K : Type} [Field K] [LinearOrder K]

/-- The losses from a positive entry on, as shares of it. -/
def drops (path : List K) : Set K :=
  {d | ∃ i j : ℕ, ∃ high low : K, i ≤ j ∧ path[i]? = some high ∧ path[j]? = some low ∧
    0 < high ∧ d = (high - low) / high}

/-- One entry: the peak so far, and the greatest loss against it. -/
def peakStep (state : K × K) (entry : K) : K × K :=
  let peak := max state.1 entry
  (peak, if peak > 0 then max state.2 ((peak - entry) / peak) else state.2)

/-- The greatest loss that the loop meets. -/
def deepest (path : List K) : K := (path.foldl peakStep (0, 0)).2

theorem peakStep_le (state : K × K) (entry : K) : state.2 ≤ (peakStep state entry).2 := by
  unfold peakStep
  dsimp only
  split_ifs
  · exact le_max_left _ _
  · exact le_rfl

/-- Further entries never make the deepest drop smaller. -/
theorem deepest_le_append (path rest : List K) : deepest path ≤ deepest (path ++ rest) := by
  rw [deepest, deepest, List.foldl_append]
  generalize path.foldl peakStep (0, 0) = state
  induction rest generalizing state with
  | nil => exact le_rfl
  | cons entry rest ih => exact (peakStep_le state entry).trans (ih _)

/-- What the loop knows of the entries it has met. -/
structure Tracked (path : List K) (state : K × K) : Prop where
  peak_nonneg : 0 ≤ state.1
  le_peak : ∀ entry ∈ path, entry ≤ state.1
  peak_mem : 0 < state.1 → state.1 ∈ path
  deepest_nonneg : 0 ≤ state.2
  le_deepest : ∀ d ∈ drops path, d ≤ state.2
  deepest_mem : 0 < state.1 → state.2 ∈ drops path
  deepest_zero : state.1 = 0 → state.2 = 0

theorem tracked_nil : Tracked ([] : List K) (0, 0) where
  peak_nonneg := le_rfl
  le_peak _ hentry := absurd hentry List.not_mem_nil
  peak_mem h := absurd h (lt_irrefl _)
  deepest_nonneg := le_rfl
  le_deepest := by
    rintro d ⟨i, j, high, low, -, hhigh, -⟩
    simp at hhigh
  deepest_mem h := absurd h (lt_irrefl _)
  deepest_zero _ := rfl

theorem drops_mono {path : List K} (rest : List K) : drops path ⊆ drops (path ++ rest) := by
  rintro d ⟨i, j, high, low, hij, hhigh, hlow, hpos, rfl⟩
  refine ⟨i, j, high, low, hij, ?_, ?_, hpos, rfl⟩
  · rw [List.getElem?_append_left (List.getElem?_eq_some_iff.mp hhigh).1]
    exact hhigh
  · rw [List.getElem?_append_left (List.getElem?_eq_some_iff.mp hlow).1]
    exact hlow

/-- A new entry adds its losses from the entries before it, and from itself. -/
theorem drops_concat {path : List K} {entry d : K} :
    d ∈ drops (path ++ [entry]) ↔
      d ∈ drops path ∨ ∃ high ∈ path ++ [entry], 0 < high ∧ d = (high - entry) / high := by
  constructor
  · rintro ⟨i, j, high, low, hij, hhigh, hlow, hpos, rfl⟩
    rcases Nat.lt_or_ge j path.length with hj | hj
    · rw [List.getElem?_append_left hj] at hlow
      rw [List.getElem?_append_left (hij.trans_lt hj)] at hhigh
      exact Or.inl ⟨i, j, high, low, hij, hhigh, hlow, hpos, rfl⟩
    · obtain ⟨hlt, hget⟩ := List.getElem?_eq_some_iff.mp hlow
      obtain rfl : entry = low := by
        rw [← hget, List.getElem_append_right hj]
        simp
      exact Or.inr ⟨high, List.mem_of_getElem? hhigh, hpos, rfl⟩
  · rintro (hold | ⟨high, hmem, hpos, rfl⟩)
    · exact drops_mono _ hold
    · obtain ⟨i, hi, hget⟩ := List.getElem_of_mem hmem
      have hlength : (path ++ [entry]).length = path.length + 1 := by simp
      refine ⟨i, path.length, high, entry, by omega, ?_, by simp, hpos, rfl⟩
      exact List.getElem?_eq_some_iff.mpr ⟨hi, hget⟩

variable [IsStrictOrderedRing K]

/-- A loss is greater against a greater entry. -/
theorem loss_le_loss {high peak entry : K} (hentry : 0 ≤ entry) (hpos : 0 < high)
    (hle : high ≤ peak) : (high - entry) / high ≤ (peak - entry) / peak := by
  rw [sub_div, sub_div, div_self hpos.ne', div_self (hpos.trans_le hle).ne']
  exact sub_le_sub_left (div_le_div_of_nonneg_left hentry hpos hle) 1

theorem Tracked.step {path : List K} {state : K × K} (h : Tracked path state) {entry : K}
    (hentry : 0 ≤ entry) : Tracked (path ++ [entry]) (peakStep state entry) := by
  have hpeak : 0 ≤ max state.1 entry := h.peak_nonneg.trans (le_max_left _ _)
  have hle : ∀ other ∈ path ++ [entry], other ≤ max state.1 entry := by
    intro other hother
    rcases List.mem_append.mp hother with hold | hnew
    · exact (h.le_peak other hold).trans (le_max_left _ _)
    · exact (List.mem_singleton.mp hnew).le.trans (le_max_right _ _)
  have hmem : 0 < max state.1 entry → max state.1 entry ∈ path ++ [entry] := by
    intro hpos
    rcases max_choice state.1 entry with hmax | hmax <;> rw [hmax] at hpos ⊢
    · exact List.mem_append_left _ (h.peak_mem hpos)
    · exact List.mem_append_right _ (List.mem_singleton_self _)
  have hloss : 0 ≤ (max state.1 entry - entry) / max state.1 entry :=
    div_nonneg (sub_nonneg.mpr (le_max_right _ _)) hpeak
  refine ⟨hpeak, hle, hmem, ?_, ?_, ?_, ?_⟩
  all_goals
    unfold peakStep
    dsimp only
  · split_ifs
    · exact le_max_of_le_left h.deepest_nonneg
    · exact h.deepest_nonneg
  · intro d hd
    rcases drops_concat.mp hd with hold | ⟨high, hhigh, hpos, rfl⟩
    · split_ifs
      · exact le_max_of_le_left (h.le_deepest d hold)
      · exact h.le_deepest d hold
    · rw [if_pos (hpos.trans_le (hle high hhigh))]
      exact le_max_of_le_right (loss_le_loss hentry hpos (hle high hhigh))
  · intro hpos
    rw [if_pos hpos]
    have hnew : (max state.1 entry - entry) / max state.1 entry ∈ drops (path ++ [entry]) :=
      drops_concat.mpr (Or.inr ⟨_, hmem hpos, hpos, rfl⟩)
    rcases max_choice state.2 ((max state.1 entry - entry) / max state.1 entry) with hmax | hmax
    · rw [hmax]
      rcases h.peak_nonneg.lt_or_eq with hold | hzero
      · exact drops_mono _ (h.deepest_mem hold)
      · -- nothing was lost before the first positive entry
        have hdeepest := h.deepest_zero hzero.symm
        rw [hdeepest] at hmax ⊢
        rwa [le_antisymm (max_eq_left_iff.mp hmax) hloss] at hnew
    · rw [hmax]
      exact hnew
  · intro hzero
    rw [if_neg (by rw [hzero]; exact lt_irrefl _)]
    exact h.deepest_zero (le_antisymm (hzero ▸ le_max_left _ _) h.peak_nonneg)

theorem tracked_foldl {path : List K} (hpath : ∀ entry ∈ path, 0 ≤ entry) :
    Tracked path (path.foldl peakStep (0, 0)) := by
  induction path using List.reverseRecOn with
  | nil => exact tracked_nil
  | append_singleton path entry ih =>
      rw [List.foldl_append]
      exact (ih fun other hother => hpath other (List.mem_append_left _ hother)).step
        (hpath entry (List.mem_append_right _ (List.mem_singleton_self _)))

/-- The loop finds the deepest drop, or zero on a path without a positive entry. -/
theorem deepest_isGreatest {path : List K} (hpath : ∀ entry ∈ path, 0 ≤ entry) :
    IsGreatest (drops path) (deepest path) ∨ drops path = ∅ ∧ deepest path = 0 := by
  have h := tracked_foldl hpath
  rcases h.peak_nonneg.lt_or_eq with hpos | hzero
  · exact Or.inl ⟨h.deepest_mem hpos, fun d hd => h.le_deepest d hd⟩
  · refine Or.inr ⟨Set.eq_empty_of_forall_notMem ?_, h.deepest_zero hzero.symm⟩
    rintro d ⟨i, j, high, low, -, hhigh, -, hpos, -⟩
    exact absurd (h.le_peak high (List.mem_of_getElem? hhigh)) (hzero ▸ hpos.not_ge)

theorem deepest_nonneg {path : List K} (hpath : ∀ entry ∈ path, 0 ≤ entry) : 0 ≤ deepest path :=
  (tracked_foldl hpath).deepest_nonneg

theorem deepest_le_one {path : List K} (hpath : ∀ entry ∈ path, 0 ≤ entry) : deepest path ≤ 1 := by
  rcases deepest_isGreatest hpath with ⟨⟨i, j, high, low, -, -, hlow, hpos, hd⟩, -⟩ | ⟨-, hzero⟩
  · rw [hd, div_le_one hpos]
    exact sub_le_self _ (hpath low (List.mem_of_getElem? hlow))
  · rw [hzero]
    exact zero_le_one

end Basis
