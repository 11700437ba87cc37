import SniperBot.Basis.Run

/-!
# Runs seen through a view

A view of the state follows a step function of its own when the labels that matter move the view
as that function does, and the other labels leave it. Then the view at the end of a run, and what
the run outputs, are those of the labels that matter alone: two runs that agree in these labels,
from states that look the same, cannot be told apart.
-/

namespace Basis

variable {σ ν α ω : Type*}

/-- What the labels of a run output, in their order. -/
def outputs (step : σ → α → σ) (out : σ → α → Option ω) : σ → List α → List ω
  | _, [] => []
  | s, a :: as => (out s a).toList ++ outputs step out (step s a) as

/-- Along guarded steps, the view follows `vstep` on the relevant labels and stands still on the
others; the relevant labels output what the view says, the others nothing. -/
structure Follows (guard : σ → α → Prop) (relevant : α → Prop) (step : σ → α → σ)
    (out : σ → α → Option ω) (view : σ → ν) (vstep : ν → α → ν) (vout : ν → α → Option ω) :
    Prop where
  own : ∀ s a, guard s a → relevant a → view (step s a) = vstep (view s) a
  other : ∀ s a, guard s a → ¬ relevant a → view (step s a) = view s
  spoken : ∀ s a, guard s a → relevant a → out s a = vout (view s) a
  silent : ∀ s a, guard s a → ¬ relevant a → out s a = none

/-- The labels of a run that meet two guards meet both, in states that have the invariant. -/
theorem Along.and_invariant {guard guard' : σ → α → Prop} {step : σ → α → σ} {I : σ → Prop}
    (hstep : ∀ s a, I s → guard s a → I (step s a)) {s : σ} {as : List α} (hs : I s)
    (hrun : Along guard step s as) (hrun' : Along guard' step s as) :
    Along (fun s a => I s ∧ guard s a ∧ guard' s a) step s as := by
  induction as generalizing s with
  | nil => trivial
  | cons a as ih =>
      exact ⟨⟨hs, hrun.1, hrun'.1⟩, ih (hstep s a hs hrun.1) hrun.2 hrun'.2⟩

namespace Follows

variable {guard : σ → α → Prop} {relevant : α → Prop} [DecidablePred relevant]
  {step : σ → α → σ} {out : σ → α → Option ω} {view : σ → ν} {vstep : ν → α → ν}
  {vout : ν → α → Option ω}

theorem exec (h : Follows guard relevant step out view vstep vout) {s : σ} {as : List α}
    (hrun : Along guard step s as) :
    view (Basis.exec step s as) = Basis.exec vstep (view s) (as.filter relevant) := by
  induction as generalizing s with
  | nil => rfl
  | cons a as ih =>
      rw [exec_cons, ih hrun.2]
      by_cases ha : relevant a
      · rw [List.filter_cons_of_pos (by simpa using ha), exec_cons, h.own s a hrun.1 ha]
      · rw [List.filter_cons_of_neg (by simpa using ha), h.other s a hrun.1 ha]

theorem outputs (h : Follows guard relevant step out view vstep vout) {s : σ} {as : List α}
    (hrun : Along guard step s as) :
    Basis.outputs step out s as = Basis.outputs vstep vout (view s) (as.filter relevant) := by
  induction as generalizing s with
  | nil => rfl
  | cons a as ih =>
      rw [Basis.outputs, ih hrun.2]
      by_cases ha : relevant a
      · rw [List.filter_cons_of_pos (by simpa using ha), Basis.outputs, h.own s a hrun.1 ha,
          h.spoken s a hrun.1 ha]
      · rw [List.filter_cons_of_neg (by simpa using ha), h.other s a hrun.1 ha,
          h.silent s a hrun.1 ha]
        rfl

/-- Two runs with the same relevant labels output the same. -/
theorem outputs_eq (h : Follows guard relevant step out view vstep vout) {s s' : σ}
    {as as' : List α} (hview : view s = view s') (hrun : Along guard step s as)
    (hrun' : Along guard step s' as') (hsame : as.filter relevant = as'.filter relevant) :
    Basis.outputs step out s as = Basis.outputs step out s' as' := by
  rw [h.outputs hrun, h.outputs hrun', hview, hsame]

end Follows

end Basis
