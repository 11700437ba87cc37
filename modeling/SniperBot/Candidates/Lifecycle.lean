import SniperBot.Candidates.StateMachine
import SniperBot.Basis.Run

/-!
# Sequences of evaluations of one candidate

The pipeline re-evaluates every stored candidate on every tick, dead ones included. One call
is an `EvaluateInput`; a call that raises leaves the stored candidate as it was.

`evaluate_spec` says everything one call can do: outside one case it succeeds, stays in its
state or takes one entry of `_ALLOWED`, and returns a closed or rejected candidate unchanged.
The exceptional case is a candidate that is already `REJECTED` and older than the expiry
time: the expiry branch exempts `CLOSED` but not `REJECTED`, and asks for
`REJECTED -> REJECTED`.
-/

namespace SniperBot.Candidates

open Security Basis

/-- The arguments of one call of `evaluate`; a security result is one of the engine. -/
structure EvaluateInput where
  snapshot : FeatureSnapshot
  security : Option EngineResult := none
  score : Option ScoreBreakdown := none
  sellRouteAvailable : Bool := false
  devSold : Bool := false

namespace CandidateStateMachine

variable (machine : CandidateStateMachine)

/-- One call of `evaluate`. -/
def call (candidate : Candidate) (input : EvaluateInput) : Except CandidateError Candidate :=
  machine.evaluate candidate input.snapshot (input.security.map Subtype.val) input.score
    input.sellRouteAvailable input.devSold

/-- The candidate that is stored after the call. -/
def afterCall (candidate : Candidate) (input : EvaluateInput) : Candidate :=
  match machine.call candidate input with
  | .ok next => next
  | .error _ => candidate

/-- The call meets a candidate that is rejected and past its expiry time. -/
def RejectedPastExpiry (candidate : Candidate) (input : EvaluateInput) : Prop :=
  candidate.state = .rejected ∧ machine.expired candidate input.snapshot.snapshotTime

instance (candidate : Candidate) (input : EvaluateInput) :
    Decidable (machine.RejectedPastExpiry candidate input) :=
  inferInstanceAs (Decidable (_ ∧ _))

/-- The call does not raise the transition error, and keeps the state of a candidate that is
closed or rejected. -/
def CallKeepsTable (candidate : Candidate) (input : EvaluateInput) : Prop :=
  (∀ state target, machine.call candidate input ≠ .error (.invalidTransition state target)) ∧
    (candidate.state = .rejected ∨ candidate.state = .closed →
      ∃ next, machine.call candidate input = .ok next ∧ next.state = candidate.state)

end CandidateStateMachine

open CandidateStateMachine

/-- The outcome of a call that does not raise, from a candidate in state `state`: the state is
kept or an entry of the table is taken, and a terminal candidate is returned unchanged. -/
def Advances (candidate : Candidate) (outcome : Except CandidateError Candidate) : Prop :=
  ∃ next, outcome = .ok next ∧
    (next.state = candidate.state ∨ next.state ∈ allowed candidate.state) ∧
    (allowed candidate.state = [] → next = candidate)

theorem advances_self (candidate : Candidate) : Advances candidate (.ok candidate) :=
  ⟨candidate, rfl, Or.inl rfl, fun _ => rfl⟩

theorem advances_same_state {candidate next : Candidate} (hstate : next.state = candidate.state)
    (halive : allowed candidate.state ≠ []) : Advances candidate (.ok next) :=
  ⟨next, rfl, Or.inl hstate, fun h => absurd h halive⟩

/-- A requested transition that the table contains succeeds. The candidate handed to
`transition` may differ from the stored one in fields other than its state. -/
theorem advances_transition {candidate handed : Candidate} {target : CandidateState}
    {at' : Time} {reason : Option RejectReason} (hstate : handed.state = candidate.state)
    (hallowed : target ∈ allowed candidate.state)
    (hreason : target = .rejected → reason ≠ none) :
    Advances candidate (transition handed target at' reason) := by
  obtain ⟨next, hnext⟩ : ∃ next, transition handed target at' reason = .ok next :=
    transition_ok (hstate.symm ▸ hallowed) hreason
  refine ⟨next, hnext, Or.inr ((transition_spec hnext).1 ▸ hallowed), ?_⟩
  intro hdead
  rw [hdead] at hallowed
  cases hallowed

theorem advances_waiting (machine : CandidateStateMachine) {candidate : Candidate}
    (hstate : candidate.state = .waitingPullback) (snapshot : FeatureSnapshot)
    (score : Option ScoreBreakdown) (sellRouteAvailable devSold : Bool) (at' : Time) :
    Advances candidate
      (machine.evaluateWaiting candidate snapshot score sellRouteAvailable devSold at') := by
  have hrecord : (machine.recordScore candidate score at').state = candidate.state := rfl
  unfold evaluateWaiting
  dsimp only
  split
  · exact advances_transition hrecord (by rw [hstate]; decide) (by simp)
  · split
    · exact advances_transition hrecord (by rw [hstate]; decide) (by simp)
    · exact advances_same_state hrecord (by rw [hstate]; decide)

theorem advances_armed {candidate : Candidate} (hstate : candidate.state = .armed)
    (snapshot : FeatureSnapshot) (at' : Time) :
    Advances candidate (evaluateArmed candidate snapshot at') := by
  unfold evaluateArmed
  dsimp only
  split_ifs
  · exact advances_transition rfl (by rw [hstate]; decide) (by simp)
  · exact advances_same_state rfl (by rw [hstate]; decide)

/-- A hard reject of the engine has a first reason, so rejecting with it is a transition. -/
theorem advances_hardReject {candidate : Candidate} {result : EngineResult} {at' : Time}
    (hhard : result.1.hardReject = true) (hallowed : .rejected ∈ allowed candidate.state) :
    Advances candidate (do
      let reason ← firstReason result.1
      transition candidate .rejected at' (some reason)) := by
  obtain ⟨reason, rest, hreasons⟩ := result.exists_first_reason hhard
  have hfirst : firstReason result.1 = .ok reason := by simp [firstReason, hreasons]
  rw [hfirst]
  exact advances_transition rfl hallowed (by simp)

/-- Before the expiry branch, every state has its branch and every requested transition is in
the table. -/
theorem advances_of_not_expiry (machine : CandidateStateMachine) (candidate : Candidate)
    (input : EvaluateInput)
    (hage : ¬ (¬ keepsPastExpiry candidate.state ∧
      machine.expired candidate input.snapshot.snapshotTime)) :
    Advances candidate (machine.call candidate input) := by
  obtain ⟨snapshot, security, score, sellRouteAvailable, devSold⟩ := input
  unfold call evaluate
  dsimp only
  rw [if_neg hage]
  split
  · rename_i hhard
    -- the hard-reject branch: its four states all allow `REJECTED`
    obtain ⟨hany, hmem⟩ := hhard
    cases security with
    | none => cases hany
    | some result =>
        refine advances_hardReject hany ?_
        simp only [List.mem_cons, List.not_mem_nil, or_false] at hmem
        rcases hmem with h | h | h | h <;> rw [h] <;> decide
  · split
    case h_1 h => exact advances_transition rfl (by rw [h]; decide) (by simp)
    case h_2 h =>
      split
      · exact advances_transition rfl (by rw [h]; decide) (by simp)
      · exact advances_same_state rfl (by rw [h]; decide)
    case h_3 h =>
      cases security with
      | none => exact advances_self candidate
      | some result =>
          dsimp only [Option.map]
          split
          · rename_i hhard
            exact advances_hardReject hhard (by rw [h]; decide)
          · exact advances_transition rfl (by rw [h]; decide) (by simp)
    case h_4 h => exact advances_transition rfl (by rw [h]; decide) (by simp)
    case h_5 h => exact advances_waiting machine h _ _ _ _ _
    case h_6 h => exact advances_armed h _ _
    case h_7 => exact advances_self candidate

/-- Everything one call can do. -/
theorem evaluate_spec (machine : CandidateStateMachine) (candidate : Candidate)
    (input : EvaluateInput) :
    (machine.RejectedPastExpiry candidate input ∧
      machine.call candidate input = .error (.invalidTransition .rejected .rejected)) ∨
    (¬ machine.RejectedPastExpiry candidate input ∧
      Advances candidate (machine.call candidate input)) := by
  by_cases hage : ¬ keepsPastExpiry candidate.state ∧
      machine.expired candidate input.snapshot.snapshotTime
  · have hcall : machine.call candidate input =
        transition candidate .rejected input.snapshot.snapshotTime (some .entryWindowExpired) := by
      unfold call evaluate
      dsimp only
      rw [if_pos hage]
    by_cases hstate : candidate.state = .rejected
    · left
      refine ⟨⟨hstate, hage.2⟩, ?_⟩
      simp [hcall, transition, hstate, allowed]
    · right
      refine ⟨fun h => hstate h.1, ?_⟩
      rw [hcall]
      refine advances_transition rfl ?_ (by simp)
      -- every state that is neither exempt nor `REJECTED` allows `REJECTED`
      have hkeeps := hage.1
      cases hs : candidate.state <;> simp_all [keepsPastExpiry, allowed]
  · right
    refine ⟨?_, advances_of_not_expiry machine candidate input hage⟩
    rintro ⟨hstate, hexpired⟩
    exact hage ⟨by rw [hstate]; decide, hexpired⟩

theorem callKeepsTable_iff (machine : CandidateStateMachine) (candidate : Candidate)
    (input : EvaluateInput) :
    machine.CallKeepsTable candidate input ↔ ¬ machine.RejectedPastExpiry candidate input := by
  rcases evaluate_spec machine candidate input with ⟨hpast, hcall⟩ | ⟨hnot, next, hcall, hstep, hdead⟩
  · refine iff_of_false ?_ (not_not_intro hpast)
    intro h
    exact h.1 _ _ hcall
  · refine iff_of_true ⟨?_, ?_⟩ hnot
    · intro state target h
      rw [hcall] at h
      cases h
    · intro hterminal
      refine ⟨next, hcall, ?_⟩
      rw [hdead (by rcases hterminal with h | h <;> rw [h] <;> rfl)]

/-- Along every sequence of calls, no call raises the transition error and terminal candidates
keep their state exactly when no call meets a candidate that is already rejected and past its
expiry time. -/
theorem evaluate_run_keepsTable_iff (machine : CandidateStateMachine) (candidate : Candidate)
    (inputs : List EvaluateInput) :
    Along machine.CallKeepsTable machine.afterCall candidate inputs ↔
      Along (fun c i => ¬ machine.RejectedPastExpiry c i) machine.afterCall candidate inputs :=
  Along.congr (callKeepsTable_iff machine) candidate inputs

/-- A freshly discovered candidate, evaluated twice after its expiry: the first call rejects
it, the second one raises. -/
theorem evaluate_run_raises_after_expiry :
    ∃ (machine : CandidateStateMachine) (candidate : Candidate) (inputs : List EvaluateInput),
      candidate.state = .discovered ∧
      inputs.Pairwise (fun i j => i.snapshot.snapshotTime ≤ j.snapshot.snapshotTime) ∧
      ¬ Along machine.CallKeepsTable machine.afterCall candidate inputs := by
  let candidate : Candidate :=
    { candidateId := "candidate", mint := "TOKEN", poolAddress := "POOL"
      detectedAt := 0, updatedAt := 0 }
  let input : EvaluateInput := { snapshot := { snapshotTime := seconds 601 } }
  refine ⟨{}, candidate, [input, input], rfl, by simp, ?_⟩
  rw [Along.congr (callKeepsTable_iff _)]
  decide

end SniperBot.Candidates
