import SniperBot.Security.Engine

/-!
# The candidate state machine

`candidates.py`: the lifecycle states, the table `_ALLOWED`, `transition` and `evaluate`.
A call that raises is an `Except.error`; the errors are the two `ValueError`s of `transition`
and the `IndexError` of `reject_reasons[0]`.
-/

namespace SniperBot.Candidates

open Security

inductive CandidateState
  | discovered | collecting | securityCheck | eligible | waitingPullback | armed
  | entryPending | positionOpen | positionPartial | exitPending | retryingExit | closed
  | rejected
  deriving DecidableEq, Repr

/-- The table `_ALLOWED`. -/
def allowed : CandidateState → List CandidateState
  | .discovered => [.collecting, .rejected]
  | .collecting => [.securityCheck, .rejected]
  | .securityCheck => [.eligible, .rejected]
  | .eligible => [.waitingPullback, .rejected]
  | .waitingPullback => [.armed, .rejected]
  | .armed => [.entryPending, .rejected]
  | .entryPending => [.positionOpen, .rejected]
  | .positionOpen => [.positionPartial, .exitPending]
  | .positionPartial => [.exitPending]
  | .exitPending => [.positionPartial, .retryingExit, .closed]
  | .retryingExit => [.exitPending, .closed]
  | .closed => []
  | .rejected => []

structure Candidate where
  candidateId : String
  mint : String
  poolAddress : String
  state : CandidateState := .discovered
  detectedAt : Time
  updatedAt : Time
  eligibleAt : Option Time := none
  armedAt : Option Time := none
  rejectedAt : Option Time := none
  rejectReason : Option RejectReason := none
  scoreConfirmations : List Time := []
  entrySignalEmitted : Bool := false
  previousPrice : Option ℚ := none
  previousVwap : Option ℚ := none
  pullbackLocalHigh : Option ℚ := none
  deriving DecidableEq, Repr

/-- The fields of a feature snapshot that the state machine reads. -/
structure FeatureSnapshot where
  snapshotTime : Time
  buyerAcceleration : ℚ := 0
  quoteLiquidityChange30s : ℚ := 0
  currentPriceUsd : ℚ := 0
  rollingVwap30s : ℚ := 0
  localHigh : ℚ := 0
  drawdownFromLocalHigh : ℚ := 0

structure ScoreBreakdown where
  totalScore : ℚ

/-- The configuration of the state machine, with the defaults of its constructor. -/
structure CandidateStateMachine where
  collectSeconds : Int := 45
  expirySeconds : Int := 600
  minimumScore : ℚ := 80
  requiredConfirmations : Int := 2
  scoreWindowSeconds : Int := 5
  minimumPullback : ℚ := 10 / 100
  maximumPullback : ℚ := 25 / 100
  maximumLiquidityDrop : ℚ := 3 / 100
  minimumBuyerAcceleration : ℚ := 13 / 10

inductive CandidateError
  /-- `invalid candidate transition {state} -> {target}` -/
  | invalidTransition (state target : CandidateState)
  /-- `rejected candidate requires a machine-readable reason` -/
  | missingRejectReason
  /-- `reject_reasons[0]` of an empty list -/
  | indexError
  deriving DecidableEq, Repr

/-- `CandidateStateMachine.transition`, which reads no threshold. -/
def transition (candidate : Candidate) (target : CandidateState) (at' : Time)
    (rejectReason : Option RejectReason := none) : Except CandidateError Candidate :=
  if target ∉ allowed candidate.state then .error (.invalidTransition candidate.state target)
  else if target = .rejected ∧ rejectReason = none then .error .missingRejectReason
  else .ok
    { candidate with
      state := target
      updatedAt := at'
      eligibleAt := if target = .eligible then some at' else candidate.eligibleAt
      armedAt := if target = .armed then some at' else candidate.armedAt
      rejectedAt := if target = .rejected then some at' else candidate.rejectedAt
      rejectReason := if target = .rejected then rejectReason else candidate.rejectReason }

/-- `security.reject_reasons[0]` -/
def firstReason (security : SecurityResult) : Except CandidateError RejectReason :=
  match security.rejectReasons with
  | [] => .error .indexError
  | reason :: _ => .ok reason

/-- `xs[-n:]` for any integer `n`. -/
def lastSlice {α : Type} (xs : List α) (n : Int) : List α :=
  if 0 < n then xs.drop (xs.length - n.toNat) else xs.drop (-n).toNat

def rememberPrices (candidate : Candidate) (snapshot : FeatureSnapshot) (at' : Time) : Candidate :=
  { candidate with
    previousPrice := some snapshot.currentPriceUsd
    previousVwap := some snapshot.rollingVwap30s
    updatedAt := at' }

namespace CandidateStateMachine

variable (machine : CandidateStateMachine)

def recordScore (candidate : Candidate) (score : Option ScoreBreakdown) (at' : Time) : Candidate :=
  let confirmations := candidate.scoreConfirmations
  let tooLow := match score with
    | none => true
    | some breakdown => decide (breakdown.totalScore < machine.minimumScore)
  let updated :=
    if tooLow then []
    else match confirmations.getLast? with
      | none => [at']
      | some last =>
          let delta := at' - last
          let minimumDelta := seconds (max 0 (machine.scoreWindowSeconds - 1))
          let maximumDelta := seconds (machine.scoreWindowSeconds + 1)
          if minimumDelta ≤ delta ∧ delta ≤ maximumDelta then
            lastSlice (confirmations ++ [at']) machine.requiredConfirmations
          else if delta > maximumDelta then [at']
          else confirmations
  { candidate with scoreConfirmations := updated, updatedAt := at' }

/-- The age test of the expiry branch. -/
def expired (candidate : Candidate) (at' : Time) : Prop :=
  at' - candidate.detectedAt > seconds machine.expirySeconds

instance (candidate : Candidate) (at' : Time) : Decidable (machine.expired candidate at') :=
  inferInstanceAs (Decidable (_ > _))

/-- The states that the expiry branch leaves alone. -/
def keepsPastExpiry (state : CandidateState) : Prop :=
  state ∈ [CandidateState.positionOpen, .positionPartial, .exitPending, .retryingExit, .closed]

instance (state : CandidateState) : Decidable (keepsPastExpiry state) :=
  inferInstanceAs (Decidable (_ ∈ _))

/-- The branch of `evaluate` for `WAITING_PULLBACK`. -/
def evaluateWaiting (candidate : Candidate) (snapshot : FeatureSnapshot)
    (score : Option ScoreBreakdown) (sellRouteAvailable devSold : Bool) (at' : Time) :
    Except CandidateError Candidate :=
  let candidate := machine.recordScore candidate score at'
  if devSold then transition candidate .rejected at' (some .devSold)
  else
    let pullbackOk := machine.minimumPullback ≤ snapshot.drawdownFromLocalHigh
      ∧ snapshot.drawdownFromLocalHigh ≤ machine.maximumPullback
    let confirmationsOk :=
      (candidate.scoreConfirmations.length : Int) ≥ machine.requiredConfirmations
    if confirmationsOk ∧ pullbackOk
        ∧ snapshot.quoteLiquidityChange30s ≥ -machine.maximumLiquidityDrop
        ∧ snapshot.buyerAcceleration ≥ machine.minimumBuyerAcceleration
        ∧ sellRouteAvailable then
      transition { candidate with pullbackLocalHigh := some snapshot.localHigh } .armed at'
    else .ok (rememberPrices candidate snapshot at')

/-- The branch of `evaluate` for `ARMED`. -/
def evaluateArmed (candidate : Candidate) (snapshot : FeatureSnapshot) (at' : Time) :
    Except CandidateError Candidate :=
  let crossedVwap := match candidate.previousPrice, candidate.previousVwap with
    | some price, some vwap =>
        decide (price ≤ vwap) && decide (snapshot.currentPriceUsd > snapshot.rollingVwap30s)
    | _, _ => false
  let brokeHigh := match candidate.pullbackLocalHigh with
    | some high => decide (snapshot.currentPriceUsd > high)
    | none => false
  if (crossedVwap || brokeHigh) && !candidate.entrySignalEmitted then
    transition { candidate with entrySignalEmitted := true } .entryPending at'
  else .ok (rememberPrices candidate snapshot at')

/-- `CandidateStateMachine.evaluate` -/
def evaluate (candidate : Candidate) (snapshot : FeatureSnapshot)
    (security : Option SecurityResult) (score : Option ScoreBreakdown)
    (sellRouteAvailable devSold : Bool) : Except CandidateError Candidate :=
  let at' := snapshot.snapshotTime
  if ¬ keepsPastExpiry candidate.state ∧ machine.expired candidate at' then
    transition candidate .rejected at' (some .entryWindowExpired)
  else if security.any (·.hardReject) ∧ candidate.state ∈
      [CandidateState.eligible, .waitingPullback, .armed, .entryPending] then do
    let reason ← security.elim (.error .indexError) firstReason
    transition candidate .rejected at' (some reason)
  else match candidate.state with
    | .discovered => transition candidate .collecting at'
    | .collecting =>
        if at' - candidate.detectedAt ≥ seconds machine.collectSeconds then
          transition candidate .securityCheck at'
        else .ok (rememberPrices candidate snapshot at')
    | .securityCheck =>
        match security with
        | none => .ok candidate
        | some result =>
            if result.hardReject then do
              let reason ← firstReason result
              transition candidate .rejected at' (some reason)
            else transition candidate .eligible at'
    | .eligible => transition candidate .waitingPullback at'
    | .waitingPullback =>
        machine.evaluateWaiting candidate snapshot score sellRouteAvailable devSold at'
    | .armed => evaluateArmed candidate snapshot at'
    | _ => .ok candidate

end CandidateStateMachine

/-! ## What a transition does -/

theorem transition_ok_iff {candidate : Candidate} {target : CandidateState} {at' : Time}
    {reason : Option RejectReason} :
    (∃ next, transition candidate target at' reason = .ok next) ↔
      target ∈ allowed candidate.state ∧ ¬ (target = .rejected ∧ reason = none) := by
  unfold transition
  split
  · simp_all
  · split <;> simp_all

theorem transition_ok {candidate : Candidate} {target : CandidateState} {at' : Time}
    {reason : Option RejectReason} (hallowed : target ∈ allowed candidate.state)
    (hreason : target = .rejected → reason ≠ none) :
    ∃ next, transition candidate target at' reason = .ok next :=
  transition_ok_iff.mpr ⟨hallowed, fun h => hreason h.1 h.2⟩

/-- A transition that succeeds goes to its target, along an entry of the table. -/
theorem transition_spec {candidate next : Candidate} {target : CandidateState} {at' : Time}
    {reason : Option RejectReason} (h : transition candidate target at' reason = .ok next) :
    next.state = target ∧ target ∈ allowed candidate.state ∧
      next.candidateId = candidate.candidateId ∧ next.detectedAt = candidate.detectedAt := by
  have hallowed := (transition_ok_iff.mp ⟨next, h⟩).1
  unfold transition at h
  split at h
  · cases h
  · split at h
    · cases h
    · cases h
      exact ⟨rfl, hallowed, rfl, rfl⟩

end SniperBot.Candidates
