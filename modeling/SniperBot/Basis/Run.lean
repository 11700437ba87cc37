import Mathlib.Data.List.Basic

/-!
# Runs of a labelled step function

A system is a total step function `σ → α → σ`; what a label may not do is expressed by
leaving the state unchanged. `exec` performs a list of labels. A guard `G : σ → α → Prop`
restricts which label may be performed in which state, and `Along G step s as` says that
every label of `as` met its guard when it was performed. `Along` is decidable when the guard
is, so concrete runs can be evaluated.

The rules below are the only inductions over runs in this development: one for invariants,
one for relations between the first and the last state, and one for simulations.
-/

namespace Basis

variable {σ α τ β ε : Type*}

/-- Perform the labels of a list from left to right. -/
def exec (step : σ → α → σ) (s : σ) (as : List α) : σ := as.foldl step s

@[simp] theorem exec_nil (step : σ → α → σ) (s : σ) : exec step s [] = s := rfl

@[simp] theorem exec_cons (step : σ → α → σ) (s : σ) (a : α) (as : List α) :
    exec step s (a :: as) = exec step (step s a) as := rfl

theorem exec_append (step : σ → α → σ) (s : σ) (as bs : List α) :
    exec step s (as ++ bs) = exec step (exec step s as) bs := List.foldl_append

/-- Every label of the run meets the guard in the state in which it is performed. -/
def Along (guard : σ → α → Prop) (step : σ → α → σ) : σ → List α → Prop
  | _, [] => True
  | s, a :: as => guard s a ∧ Along guard step (step s a) as

instance Along.decidable (guard : σ → α → Prop) [∀ s a, Decidable (guard s a)]
    (step : σ → α → σ) : ∀ s as, Decidable (Along guard step s as)
  | _, [] => isTrue trivial
  | s, a :: as =>
      have := Along.decidable guard step (step s a) as
      inferInstanceAs (Decidable (_ ∧ _))

theorem Along.append_iff {guard : σ → α → Prop} {step : σ → α → σ} {s : σ} {as bs : List α} :
    Along guard step s (as ++ bs) ↔
      Along guard step s as ∧ Along guard step (exec step s as) bs := by
  induction as generalizing s with
  | nil => simp [Along]
  | cons a as ih => simp only [List.cons_append, Along, exec_cons, ih, and_assoc]

theorem Along.mono {guard guard' : σ → α → Prop} {step : σ → α → σ}
    (h : ∀ s a, guard s a → guard' s a) {s : σ} {as : List α}
    (hrun : Along guard step s as) : Along guard' step s as := by
  induction as generalizing s with
  | nil => trivial
  | cons a as ih => exact ⟨h s a hrun.1, ih hrun.2⟩

/-- Guards that are equivalent in every state admit the same runs. -/
theorem Along.congr {guard guard' : σ → α → Prop} {step : σ → α → σ}
    (h : ∀ s a, guard s a ↔ guard' s a) (s : σ) (as : List α) :
    Along guard step s as ↔ Along guard' step s as :=
  ⟨Along.mono fun s a => (h s a).mp, Along.mono fun s a => (h s a).mpr⟩

/-- Guards that are equivalent wherever a third one holds admit the same runs among its runs. -/
theorem Along.congr_within {guard guard' within : σ → α → Prop} {step : σ → α → σ}
    (h : ∀ s a, within s a → (guard s a ↔ guard' s a)) {s : σ} {as : List α}
    (hrun : Along within step s as) : Along guard step s as ↔ Along guard' step s as := by
  induction as generalizing s with
  | nil => exact Iff.rfl
  | cons a as ih => exact and_congr (h s a hrun.1) (ih hrun.2)

/-- A property kept by every guarded step holds at the end of every guarded run. -/
theorem Along.invariant {guard : σ → α → Prop} {step : σ → α → σ} {I : σ → Prop}
    (hstep : ∀ s a, I s → guard s a → I (step s a)) {s : σ} {as : List α}
    (hs : I s) (hrun : Along guard step s as) : I (exec step s as) := by
  induction as generalizing s with
  | nil => exact hs
  | cons a as ih => exact ih (hstep s a hs hrun.1) hrun.2

/-- A reflexive and transitive relation that holds across every guarded step from a state
with the invariant holds between the two ends of every guarded run. -/
theorem Along.relates {guard : σ → α → Prop} {step : σ → α → σ} {I : σ → Prop}
    {R : σ → σ → Prop} (hrefl : ∀ s, R s s) (htrans : ∀ s t u, R s t → R t u → R s u)
    (hinv : ∀ s a, I s → guard s a → I (step s a))
    (hstep : ∀ s a, I s → guard s a → R s (step s a)) {s : σ} {as : List α}
    (hs : I s) (hrun : Along guard step s as) : R s (exec step s as) := by
  induction as generalizing s with
  | nil => exact hrefl s
  | cons a as ih =>
      exact htrans _ _ _ (hstep s a hs hrun.1) (ih (hinv s a hs hrun.1) hrun.2)

/-- A reflexive and transitive relation holds between any two states of a run if and only if it
holds across each step. -/
theorem Along.between_iff {step : σ → α → σ} {R : σ → σ → Prop} (hrefl : ∀ s, R s s)
    (htrans : ∀ s t u, R s t → R t u → R s u) {s : σ} {as : List α} :
    (∀ before between after, as = before ++ between ++ after →
        R (exec step s before) (exec step s (before ++ between))) ↔
      Along (fun s a => R s (step s a)) step s as := by
  constructor
  · intro h
    induction as generalizing s with
    | nil => trivial
    | cons a as ih =>
        refine ⟨h [] [a] as rfl, ih fun before between after has => ?_⟩
        exact h (a :: before) between after (congrArg (a :: ·) has)
  · rintro hrun before between after rfl
    obtain ⟨hfirst, -⟩ := Along.append_iff.mp hrun
    obtain ⟨-, hbetween⟩ := Along.append_iff.mp hfirst
    rw [exec_append]
    exact hbetween.relates (I := fun _ => True) hrefl htrans (fun _ _ _ _ => trivial)
      (fun _ _ _ h => h) trivial

/-- The same two rules for runs without a guard. -/
theorem exec_invariant {step : σ → α → σ} {I : σ → Prop}
    (hstep : ∀ s a, I s → I (step s a)) {s : σ} (hs : I s) (as : List α) :
    I (exec step s as) := by
  induction as generalizing s with
  | nil => exact hs
  | cons a as ih => exact ih (hstep s a hs)

theorem exec_relates {step : σ → α → σ} {I : σ → Prop} {R : σ → σ → Prop} (hrefl : ∀ s, R s s)
    (htrans : ∀ s t u, R s t → R t u → R s u) (hinv : ∀ s a, I s → I (step s a))
    (hstep : ∀ s a, I s → R s (step s a)) {s : σ} (hs : I s) (as : List α) :
    R s (exec step s as) := by
  induction as generalizing s with
  | nil => exact hrefl s
  | cons a as ih => exact htrans _ _ _ (hstep s a hs) (ih (hinv s a hs))

end Basis
