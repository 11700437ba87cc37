import SniperBot.Features.Registry
import SniperBot.Candidates.StateMachine

/-!
# Which events change the state

`_event_state_filter_reason` of `pipeline.py`: a swap is applied only when its pool is known, has a
candidate, and the candidate still needs it. Every other event is applied.
-/

namespace SniperBot.Features

open Basis Candidates

inductive FilterReason
  | unknownPool | noCandidate | beforeCandidate | terminal | expired
  deriving DecidableEq, Repr

/-- The states of a candidate with a position. -/
def HoldsPosition (state : CandidateState) : Prop :=
  state ∈ [CandidateState.positionOpen, .positionPartial, .exitPending, .retryingExit]

instance (state : CandidateState) : Decidable (HoldsPosition state) :=
  inferInstanceAs (Decidable (_ ∈ _))

/-- `{CLOSED, REJECTED}` -/
def Terminal (state : CandidateState) : Prop := state ∈ [CandidateState.closed, .rejected]

instance (state : CandidateState) : Decidable (Terminal state) :=
  inferInstanceAs (Decidable (_ ∈ _))

theorem HoldsPosition.not_terminal {state : CandidateState} (h : HoldsPosition state) :
    ¬ Terminal state := by
  revert h
  cases state <;> decide

/-- The configuration that the filter reads; `candidateId` is `_candidate_id` for the strategy
version. -/
structure FilterConfig where
  candidateId : String → String → String
  maxPoolAgeSeconds : Int := 180

/-- The part of the filter for a candidate. -/
def candidateFilterReason (config : FilterConfig) (candidate : Candidate) (blockTime : Time) :
    Option FilterReason :=
  if blockTime < candidate.detectedAt then some .beforeCandidate
  else if HoldsPosition candidate.state then none
  else if Terminal candidate.state then some .terminal
  else if blockTime > candidate.detectedAt + seconds config.maxPoolAgeSeconds then some .expired
  else none

/-- `_event_state_filter_reason` -/
def eventStateFilterReason (config : FilterConfig) (pools : Dict String PoolRecord)
    (candidates : Dict String Candidate) (event : EventEnvelope) : Option FilterReason :=
  if ¬ event.eventType.Swap then none
  else match event.pool?.bind pools.get? with
    | none => some .unknownPool
    | some pool =>
        match candidates.get? (config.candidateId pool.baseMint pool.poolAddress) with
        | none => some .noCandidate
        | some candidate => candidateFilterReason config candidate event.blockTime

/-- With a position, only the swaps before the candidate are filtered. -/
theorem candidateFilterReason_holds {config : FilterConfig} {candidate : Candidate}
    (h : HoldsPosition candidate.state) (blockTime : Time) :
    candidateFilterReason config candidate blockTime =
      if blockTime < candidate.detectedAt then some .beforeCandidate else none := by
  unfold candidateFilterReason
  rw [if_pos h]

end SniperBot.Features
