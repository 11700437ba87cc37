import SniperBot.Basis.Run
import Mathlib.Data.Nat.Init

/-!
# Infinite runs and fairness

An infinite run performs a sequence of labels. It is fair if no task can take a turn from some time
on without being given one. `Fair.reaches` is the rule for what a fair run reaches: as long as the
goal is not reached some task can take a turn, its turn lowers a measure, and nothing else raises
the measure or changes which task it is.
-/

namespace Basis

variable {σ α τ : Type*}

/-- The state before the label with a number. -/
def stateAt (step : σ → α → σ) (s : σ) (labels : ℕ → α) : ℕ → σ
  | 0 => s
  | n + 1 => step (stateAt step s labels n) (labels n)

section Run

variable {step : σ → α → σ} {s : σ} {labels : ℕ → α}

/-- A property kept by every label that meets its guard holds in every state of a run whose labels
all meet it. -/
theorem stateAt_invariant {I : σ → Prop} {guard : σ → α → Prop}
    (hstep : ∀ s a, I s → guard s a → I (step s a)) (hs : I s)
    (hguard : ∀ n, guard (stateAt step s labels n) (labels n)) (n : ℕ) :
    I (stateAt step s labels n) := by
  induction n with
  | zero => exact hs
  | succ n ih => exact hstep _ _ ih (hguard n)

/-- A reflexive and transitive relation across every step holds from each state to all later
ones. -/
theorem stateAt_relates {R : σ → σ → Prop} (hrefl : ∀ s, R s s)
    (htrans : ∀ s t u, R s t → R t u → R s u) (hstep : ∀ s a, R s (step s a)) {n m : ℕ}
    (h : n ≤ m) : R (stateAt step s labels n) (stateAt step s labels m) := by
  induction m, h using Nat.le_induction with
  | base => exact hrefl _
  | succ m _ ih => exact htrans _ _ _ ih (hstep _ _)

/-- Every task that can take a turn is given one, unless it no longer can. -/
def Fair (enabled : σ → τ → Prop) (turn : τ → α → Prop) (step : σ → α → σ) (s : σ)
    (labels : ℕ → α) : Prop :=
  ∀ n t, enabled (stateAt step s labels n) t →
    ∃ m, n ≤ m ∧ (turn t (labels m) ∨ ¬ enabled (stateAt step s labels m) t)

theorem Fair.reaches {enabled : σ → τ → Prop} {turn : τ → α → Prop}
    (hfair : Fair enabled turn step s labels) (I goal : σ → Prop) (measure : σ → ℕ)
    (helper : σ → τ) (hinv : ∀ s a, I s → I (step s a))
    (henabled : ∀ s, I s → ¬ goal s → enabled s (helper s))
    (hturn : ∀ s a, I s → ¬ goal s → turn (helper s) a →
      goal (step s a) ∨ measure (step s a) < measure s)
    (hother : ∀ s a, I s → ¬ goal s → goal (step s a) ∨ measure (step s a) < measure s ∨
      measure (step s a) = measure s ∧ helper (step s a) = helper s)
    {n : ℕ} (hn : I (stateAt step s labels n)) :
    ∃ m, n ≤ m ∧ goal (stateAt step s labels m) := by
  induction hmeasure : measure (stateAt step s labels n) using Nat.strong_induction_on
    generalizing n with
  | _ value ih =>
      by_cases hgoal : goal (stateAt step s labels n)
      · exact ⟨n, Nat.le_refl n, hgoal⟩
      obtain ⟨m, hnm, hm⟩ := hfair n _ (henabled _ hn hgoal)
      have hI : ∀ k, n ≤ k → I (stateAt step s labels k) := fun k hk => by
        induction k, hk using Nat.le_induction with
        | base => exact hn
        | succ k _ ih => exact hinv _ _ ih
      -- a state with the goal or a lower measure settles it
      have hsettled : ∀ k, n ≤ k →
          goal (stateAt step s labels k) ∨ measure (stateAt step s labels k) < value →
          ∃ m, n ≤ m ∧ goal (stateAt step s labels m) := by
        rintro k hk (hdone | hlower)
        · exact ⟨k, hk, hdone⟩
        · obtain ⟨m, hkm, hdone⟩ := ih _ hlower (hI k hk) rfl
          exact ⟨m, Nat.le_trans hk hkm, hdone⟩
      by_contra hnever
      -- otherwise the task is still the same when its turn comes
      have hsame : ∀ k, n ≤ k → measure (stateAt step s labels k) = value ∧
          helper (stateAt step s labels k) = helper (stateAt step s labels n) ∧
          ¬ goal (stateAt step s labels k) := by
        intro k hk
        induction k, hk using Nat.le_induction with
        | base => exact ⟨hmeasure, rfl, hgoal⟩
        | succ k hk ihk =>
            obtain ⟨hvalue, hhelper, hnot⟩ := ihk
            rcases hother _ (labels k) (hI k hk) hnot with hdone | hlower | ⟨hkept, hkeptHelper⟩
            · exact absurd (hsettled (k + 1) (Nat.le_succ_of_le hk) (Or.inl hdone)) hnever
            · exact absurd (hsettled (k + 1) (Nat.le_succ_of_le hk) (Or.inr (hvalue ▸ hlower)))
                hnever
            · exact ⟨hkept.trans hvalue, hkeptHelper.trans hhelper,
                fun hdone => hnever ⟨k + 1, Nat.le_succ_of_le hk, hdone⟩⟩
      obtain ⟨hvalue, hhelper, hnot⟩ := hsame m hnm
      rw [← hhelper] at hm
      rcases hm with htaken | hdisabled
      · refine hnever (hsettled (m + 1) (Nat.le_succ_of_le hnm) ?_)
        have hlast := hturn _ (labels m) (hI m hnm) hnot htaken
        rwa [hvalue] at hlast
      · exact hdisabled (henabled _ (hI m hnm) hnot)

end Run

end Basis
