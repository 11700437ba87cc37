import SniperBot.Basis.Run
import SniperBot.Features.Registry
import Mathlib.Data.Finset.Insert

/-!
# Poisoned state and the entry gate

When a batch fails after its transaction has begun, the memory may be ahead of the rows:
`_poison_state` (`pipeline.py`) marks the state as inconsistent and blocks the entry gate until the
process is restarted. The gate is a set of reasons that many tasks block and unblock; this file has
the stream worker, the durable, the state and the archive worker, and the candidate, exit and
freshness loops, each between two awaits, and what the other tasks do to the gate.

`_poison_state` blocks with the reason of the stream worker, `event_processing_error`. Before the
fatal handler blocks with its own reason, the state worker waits for `mark_events_failed`, and a
batch of the stream worker that succeeds meanwhile unblocks the shared one
(`stream_success_reopens`). Without such a batch a poisoned state stays closed
(`poisoned_run_closed`); no event is applied to it in any run (`poisoned_run_applies_nothing`).

The workers merge batches, which makes no difference here; what ends the process after the fatal
handler is left out. An event is its id, and a candidate too.
-/

namespace SniperBot.Runtime

open Basis Features

/-! ## The entry gate -/

/-- The reasons of `entry_gate.block`. -/
inductive Reason
  | startup | archiveRecovery | shutdownDrainTimeout | stageTrackingError | durableIngestError
  | stateApplyError | rawArchiveError | eventProcessingError | databaseUnavailable
  | eventQuarantine | warmup | securityDataUnavailable | exitMonitorError | streamStale
  | solPriceUnavailable | runtimeLeaseLost | streamRecoveryGap | streamDisconnected
  | streamFetchError | streamBaseline
  deriving DecidableEq, Repr

/-- `EntryGate` -/
structure EntryGate where
  reasons : Finset Reason := {.startup}
  protocolReasons : Finset Protocol := ∅
  deriving DecidableEq

def EntryGate.Enabled (gate : EntryGate) : Prop :=
  gate.reasons = ∅ ∧ gate.protocolReasons = ∅

instance (gate : EntryGate) : Decidable gate.Enabled := inferInstanceAs (Decidable (_ ∧ _))

def EntryGate.block (gate : EntryGate) (reason : Reason) : EntryGate :=
  { gate with reasons := insert reason gate.reasons }

def EntryGate.unblock (gate : EntryGate) (reason : Reason) : EntryGate :=
  { gate with reasons := gate.reasons.erase reason }

def EntryGate.blockProtocol (gate : EntryGate) (protocol : Protocol) : EntryGate :=
  { gate with protocolReasons := insert protocol gate.protocolReasons }

/-- A reason that is blocked or unblocked with the result of a task. -/
def EntryGate.report (gate : EntryGate) (reason : Reason) (ok : Bool) : EntryGate :=
  if ok then gate.unblock reason else gate.block reason

/-! ## Tasks -/

/-- Where the stream worker stands, with the failed attempts at its batch. -/
inductive StreamTask
  | waiting
  /-- In `process_transactions`, behind its check of the state. -/
  | processing (attempt : Nat)
  | sleeping (attempt : Nat)
  | ended
  deriving DecidableEq, Repr

/-- Where the state worker stands. -/
inductive StateTask
  | waiting
  /-- In the transaction of a batch, with the events that are left. -/
  | applying (events : List String)
  /-- In `mark_events_failed`, after `_poison_state`. -/
  | cleaning
  | ended
  deriving DecidableEq, Repr

inductive DurableTask
  | waiting
  | recording (events : List String)
  deriving DecidableEq, Repr

/-- `entering` is the call of the entry handler. -/
inductive CandidateTask
  | sleeping | evaluating | entering
  deriving DecidableEq, Repr

/-- The tasks, the state flag, and two histories: the events applied to the state in memory and the
candidates for which the entry handler was started. -/
structure Tasks where
  gate : EntryGate := { reasons := {.startup, .warmup} }
  poisoned : Bool := false
  stream : StreamTask := .waiting
  durable : DurableTask := .waiting
  state : StateTask := .waiting
  candidates : CandidateTask := .sleeping
  durableQueue : List (List String) := []
  stateQueue : List (List String) := []
  applied : List String := []
  entryCalls : List String := []

/-- `PROCESSING_RETRY_LIMIT` -/
def processingRetryLimit : Nat := 3

/-- `_request_fatal_restart` -/
def EntryGate.requestFatalRestart (gate : EntryGate) : EntryGate := gate.block .databaseUnavailable

/-- The batch handler of the stream worker has raised. -/
def Tasks.streamFailed (s : Tasks) (attempt : Nat) : Tasks :=
  let gate := s.gate.block .eventProcessingError
  if attempt + 1 ≥ processingRetryLimit then
    { s with gate := gate.requestFatalRestart, stream := .ended }
  else { s with gate := gate, stream := .sleeping (attempt + 1) }

/-- `process_transactions` is called and checks the state. -/
def Tasks.streamCall (s : Tasks) (attempt : Nat) : Tasks :=
  if s.poisoned then s.streamFailed attempt else { s with stream := .processing attempt }

/-- A batch has failed in its transaction: `_poison_state`. -/
def Tasks.poison (s : Tasks) : Tasks :=
  { s with poisoned := true, gate := s.gate.block .eventProcessingError, state := .cleaning }

/-- `process_event` for the next event of the batch; `keep` is the answer of the state filter. -/
def Tasks.processEvent (s : Tasks) (keep : Bool) : Tasks :=
  match s.state with
  | .applying (event :: events) =>
      if s.poisoned then s.poison
      else
        { s with
          state := .applying events, applied := if keep then s.applied ++ [event] else s.applied }
  | _ => s

/-- An `ENTRY_PENDING` candidate in `evaluate_candidates`; `rules` is the answer of
`_entry_rules`. -/
def Tasks.enter (s : Tasks) (candidate : String) (rules : Bool) : Tasks :=
  if ¬ s.gate.Enabled then s
  else if rules = false then s
  else { s with candidates := .entering, entryCalls := s.entryCalls ++ [candidate] }

/-- `refresh_freshness`; `recovered` says that a pending dispatch recovery is over. -/
def EntryGate.refreshFreshness (gate : EntryGate) (stale baselineReady recovered : Bool) :
    EntryGate :=
  let gate := gate.report .streamStale (!stale)
  if baselineReady then
    let gate := gate.unblock .streamBaseline
    if recovered && !stale then gate.unblock .streamFetchError else gate
  else gate.block .streamBaseline

/-- The reasons that tasks other than these unblock: the connection and its dispatch, the warmup,
the quote loop, the recovery of the archive. -/
def Reason.ClearedElsewhere (reason : Reason) : Prop :=
  reason ∈ [.startup, .streamDisconnected, .streamRecoveryGap, .streamFetchError, .warmup,
    .solPriceUnavailable, .archiveRecovery]

instance (reason : Reason) : Decidable reason.ClearedElsewhere :=
  inferInstanceAs (Decidable (_ ∈ _))

/-! ## Steps -/

inductive TaskStep
  | streamTake
  | streamRetry
  | streamEnqueue (events : List String)
  | streamSucceeds
  | streamFails (undecoded : Option Protocol)
  | durableTake
  | durableHands (claimed : List String)
  | durableFails
  | stateTake
  | stateEvent (keep : Bool)
  /-- The batch raises; `reached` says that its next event was applied before. -/
  | stateFails (reached : Bool)
  | stateCommits
  | stateCleaned (cancelled : Bool)
  | archive (ok : Bool)
  | candidatePass
  | candidateEnters (candidate : String) (rules : Bool)
  | candidateEntered
  | candidatesDone (ok : Bool)
  | exits (ok : Bool)
  | freshness (stale baselineReady recovered : Bool)
  | blockElsewhere (reason : Reason)
  | unblockElsewhere (reason : Reason)
  deriving DecidableEq

def Tasks.step (s : Tasks) : TaskStep → Tasks
  | .streamTake => match s.stream with
    | .waiting => s.streamCall 0
    | _ => s
  | .streamRetry => match s.stream with
    | .sleeping attempt => s.streamCall attempt
    | _ => s
  | .streamEnqueue events => match s.stream with
    | .processing _ => { s with durableQueue := s.durableQueue ++ [events] }
    | _ => s
  | .streamSucceeds => match s.stream with
    | .processing _ => { s with stream := .waiting, gate := s.gate.unblock .eventProcessingError }
    | _ => s
  | .streamFails undecoded => match s.stream with
    | .processing attempt =>
        { s with
          gate := match undecoded with
            | some protocol => s.gate.blockProtocol protocol
            | none => s.gate }.streamFailed attempt
    | _ => s
  | .durableTake => match s.durable, s.durableQueue with
    | .waiting, events :: queue => { s with durable := .recording events, durableQueue := queue }
    | _, _ => s
  | .durableHands claimed => match s.durable with
    | .recording _ =>
        { s with
          durable := .waiting
          stateQueue := if claimed = [] then s.stateQueue else s.stateQueue ++ [claimed]
          gate := s.gate.unblock .durableIngestError }
    | .waiting => s
  | .durableFails => match s.durable with
    | .recording _ => { s with gate := s.gate.block .durableIngestError }
    | .waiting => s
  | .stateTake => match s.state, s.stateQueue with
    | .waiting, events :: queue => { s with state := .applying events, stateQueue := queue }
    | _, _ => s
  | .stateEvent keep => s.processEvent keep
  | .stateFails reached => match s.state with
    | .applying _ =>
        if reached then (s.processEvent true).poison else s.poison
    | _ => s
  | .stateCommits => match s.state with
    | .applying [] => { s with state := .waiting, gate := s.gate.unblock .stateApplyError }
    | _ => s
  | .stateCleaned cancelled => match s.state with
    | .cleaning =>
        let gate := s.gate.requestFatalRestart
        { s with
          state := .ended, gate := if cancelled then gate else gate.block .stateApplyError }
    | _ => s
  | .archive ok => { s with gate := s.gate.report .rawArchiveError ok }
  | .candidatePass => match s.candidates with
    | .sleeping => { s with candidates := .evaluating }
    | _ => s
  | .candidateEnters candidate rules => match s.candidates with
    | .evaluating => s.enter candidate rules
    | _ => s
  | .candidateEntered => match s.candidates with
    | .entering => { s with candidates := .evaluating }
    | _ => s
  | .candidatesDone ok => match s.candidates, ok with
    | .evaluating, ok =>
        { s with candidates := .sleeping, gate := s.gate.report .securityDataUnavailable ok }
    | .entering, false =>
        { s with candidates := .sleeping, gate := s.gate.report .securityDataUnavailable false }
    | _, _ => s
  | .exits ok => { s with gate := s.gate.report .exitMonitorError ok }
  | .freshness stale baselineReady recovered =>
      { s with gate := s.gate.refreshFreshness stale baselineReady recovered }
  | .blockElsewhere reason => { s with gate := s.gate.block reason }
  | .unblockElsewhere reason =>
      if reason.ClearedElsewhere then { s with gate := s.gate.unblock reason } else s

/-! ## What each step leaves alone -/

/-- The steps of the state worker. -/
def TaskStep.OfState : TaskStep → Prop
  | .stateTake | .stateEvent _ | .stateFails _ | .stateCommits | .stateCleaned _ => True
  | _ => False

section Steps

variable {s : Tasks} {reason : Reason} {gate : EntryGate}

theorem mem_unblock {other : Reason} (h : reason ∈ gate.reasons) (hne : reason ≠ other) :
    reason ∈ (gate.unblock other).reasons := Finset.mem_erase.mpr ⟨hne, h⟩

theorem mem_block (other : Reason) (h : reason ∈ gate.reasons) :
    reason ∈ (gate.block other).reasons := Finset.mem_insert_of_mem h

theorem mem_report {other : Reason} (ok : Bool) (h : reason ∈ gate.reasons)
    (hne : reason ≠ other) : reason ∈ (gate.report other ok).reasons := by
  cases ok with
  | true => exact mem_unblock h hne
  | false => exact mem_block other h

theorem not_enabled (h : reason ∈ gate.reasons) : ¬ gate.Enabled := by
  intro henabled
  rw [henabled.1] at h
  exact Finset.notMem_empty _ h

/-- The reasons of a poisoned state: of all tasks, only the stream worker unblocks one of them. -/
def Reason.OfPoison (reason : Reason) : Prop :=
  reason = .eventProcessingError ∨ reason = .databaseUnavailable

instance (reason : Reason) : Decidable reason.OfPoison := inferInstanceAs (Decidable (_ ∨ _))

theorem Reason.OfPoison.ne (h : reason.OfPoison) (other : Reason) (hother : ¬ other.OfPoison) :
    reason ≠ other := by
  rintro rfl
  exact hother h

/-- What a task other than the state worker does: nothing to the state, and to the gate nothing
that matters, except for a batch of the stream worker that succeeds. -/
structure Bystander (step : TaskStep) (s next : Tasks) : Prop where
  state : next.state = s.state
  poisoned : next.poisoned = s.poisoned
  applied : next.applied = s.applied
  entryCalls : ¬ s.gate.Enabled → next.entryCalls = s.entryCalls
  reasons : ∀ reason ∈ s.gate.reasons, reason.OfPoison →
    (step = .streamSucceeds → reason ≠ .eventProcessingError) → reason ∈ next.gate.reasons

theorem Bystander.refl (step : TaskStep) (s : Tasks) : Bystander step s s :=
  ⟨rfl, rfl, rfl, fun _ => rfl, fun _ h _ _ => h⟩

theorem Bystander.streamFailed (step : TaskStep) (s : Tasks) (attempt : Nat) :
    Bystander step s (s.streamFailed attempt) := by
  unfold Tasks.streamFailed
  dsimp only
  split
  · exact ⟨rfl, rfl, rfl, fun _ => rfl, fun _ h _ _ => mem_block _ (mem_block _ h)⟩
  · exact ⟨rfl, rfl, rfl, fun _ => rfl, fun _ h _ _ => mem_block _ h⟩

theorem Bystander.streamCall (step : TaskStep) (s : Tasks) (attempt : Nat) :
    Bystander step s (s.streamCall attempt) := by
  unfold Tasks.streamCall
  split
  · exact .streamFailed step s attempt
  · exact ⟨rfl, rfl, rfl, fun _ => rfl, fun _ h _ _ => h⟩

/-- The entry handler is started behind the gate only. -/
theorem Bystander.enter (step : TaskStep) (s : Tasks) (candidate : String) (rules : Bool) :
    Bystander step s (s.enter candidate rules) := by
  unfold Tasks.enter
  split
  · exact .refl step s
  · rename_i henabled
    split
    · exact .refl step s
    · exact ⟨rfl, rfl, rfl, fun hnot => absurd hnot henabled, fun _ h _ _ => h⟩

theorem mem_refreshFreshness (stale baselineReady recovered : Bool)
    (h : reason ∈ gate.reasons) (hpoison : reason.OfPoison) :
    reason ∈ (gate.refreshFreshness stale baselineReady recovered).reasons := by
  have hstale := mem_report (!stale) h (hpoison.ne .streamStale (by decide))
  have hbaseline := mem_unblock hstale (hpoison.ne .streamBaseline (by decide))
  unfold EntryGate.refreshFreshness
  dsimp only
  split
  · split
    · exact mem_unblock hbaseline (hpoison.ne _ (by decide))
    · exact hbaseline
  · exact mem_block _ hstale

/-- A step that only reports to the gate. -/
theorem Bystander.report (step : TaskStep) {s next : Tasks} (ok : Bool) (other : Reason)
    (hother : ¬ other.OfPoison) (hgate : next.gate = s.gate.report other ok)
    (hstate : next.state = s.state) (hpoisoned : next.poisoned = s.poisoned)
    (happlied : next.applied = s.applied) (hcalls : next.entryCalls = s.entryCalls) :
    Bystander step s next :=
  ⟨hstate, hpoisoned, happlied, fun _ => hcalls, fun reason h hpoison _ => by
    rw [hgate]
    exact mem_report ok h (hpoison.ne other hother)⟩

theorem bystander (s : Tasks) {step : TaskStep} (hstep : ¬ step.OfState) :
    Bystander step s (s.step step) := by
  cases step with
  | stateTake => exact absurd trivial hstep
  | stateEvent keep => exact absurd trivial hstep
  | stateFails reached => exact absurd trivial hstep
  | stateCommits => exact absurd trivial hstep
  | stateCleaned cancelled => exact absurd trivial hstep
  | streamTake =>
      rw [Tasks.step]
      split
      · exact .streamCall _ s 0
      · exact .refl _ s
  | streamRetry =>
      rw [Tasks.step]
      split
      · exact .streamCall _ s _
      · exact .refl _ s
  | streamEnqueue events =>
      rw [Tasks.step]
      split
      · exact ⟨rfl, rfl, rfl, fun _ => rfl, fun _ h _ _ => h⟩
      · exact .refl _ s
  | streamSucceeds =>
      rw [Tasks.step]
      split
      · exact ⟨rfl, rfl, rfl, fun _ => rfl, fun _ h _ hne => mem_unblock h (hne rfl)⟩
      · exact .refl _ s
  | streamFails undecoded =>
      unfold Tasks.step
      dsimp only
      split
      · cases undecoded with
        | none => exact .streamFailed _ s _
        | some protocol =>
            obtain ⟨hstate, hpoisoned, happlied, hcalls, hreasons⟩ := Bystander.streamFailed
              (.streamFails (some protocol)) { s with gate := s.gate.blockProtocol protocol } _
            refine ⟨hstate, hpoisoned, happlied, fun _ => hcalls ?_, hreasons⟩
            exact fun henabled => Finset.insert_ne_empty _ _ henabled.2
      · exact .refl _ s
  | durableTake =>
      rw [Tasks.step]
      split
      · exact ⟨rfl, rfl, rfl, fun _ => rfl, fun _ h _ _ => h⟩
      · exact .refl _ s
  | durableHands claimed =>
      rw [Tasks.step]
      split
      · exact .report _ true .durableIngestError (by decide) rfl rfl rfl rfl rfl
      · exact .refl _ s
  | durableFails =>
      rw [Tasks.step]
      split
      · exact .report _ false .durableIngestError (by decide) rfl rfl rfl rfl rfl
      · exact .refl _ s
  | archive ok => exact .report _ ok .rawArchiveError (by decide) rfl rfl rfl rfl rfl
  | candidatePass =>
      rw [Tasks.step]
      split
      · exact ⟨rfl, rfl, rfl, fun _ => rfl, fun _ h _ _ => h⟩
      · exact .refl _ s
  | candidateEnters candidate rules =>
      rw [Tasks.step]
      split
      · exact .enter _ s candidate rules
      · exact .refl _ s
  | candidateEntered =>
      rw [Tasks.step]
      split
      · exact ⟨rfl, rfl, rfl, fun _ => rfl, fun _ h _ _ => h⟩
      · exact .refl _ s
  | candidatesDone ok =>
      unfold Tasks.step
      dsimp only
      split
      · exact .report _ _ .securityDataUnavailable (by decide) rfl rfl rfl rfl rfl
      · exact .report _ false .securityDataUnavailable (by decide) rfl rfl rfl rfl rfl
      · exact .refl _ s
  | exits ok => exact .report _ ok .exitMonitorError (by decide) rfl rfl rfl rfl rfl
  | freshness stale baselineReady recovered =>
      exact ⟨rfl, rfl, rfl, fun _ => rfl, fun _ h hpoison _ => mem_refreshFreshness _ _ _ h hpoison⟩
  | blockElsewhere other =>
      exact ⟨rfl, rfl, rfl, fun _ => rfl, fun _ h _ _ => mem_block other h⟩
  | unblockElsewhere other =>
      rw [Tasks.step]
      split
      · rename_i hcleared
        refine .report _ true other ?_ rfl rfl rfl rfl rfl
        rintro (rfl | rfl) <;> revert hcleared <;> decide
      · exact .refl _ s

end Steps

/-! ## The state worker -/

/-- A poisoned state belongs to a worker that cleans up or has ended. -/
def Tasks.Stopped (s : Tasks) : Prop := s.state = .cleaning ∨ s.state = .ended

/-- Nothing restarts a worker that has poisoned the state. -/
def Tasks.Marked (s : Tasks) : Prop := s.poisoned = true → s.Stopped

/-- While the worker cleans up the shared reason blocks, and afterwards its own one. -/
structure Tasks.Closed (s : Tasks) : Prop where
  marked : s.Marked
  cleaning : s.state = .cleaning → .eventProcessingError ∈ s.gate.reasons
  ended : s.state = .ended → .databaseUnavailable ∈ s.gate.reasons

/-- No batch of the stream worker succeeds while the state worker cleans up. -/
def Undisturbed (s : Tasks) (step : TaskStep) : Prop :=
  step = .streamSucceeds → s.state ≠ .cleaning

instance (s : Tasks) (step : TaskStep) : Decidable (Undisturbed s step) :=
  inferInstanceAs (Decidable (_ → _))

section StateWorker

variable {s : Tasks}

theorem Tasks.poison_closed (s : Tasks) : s.poison.Closed where
  marked _ := Or.inl rfl
  cleaning _ := Finset.mem_insert_self _ _
  ended := nofun

/-- A worker that has stopped takes no step but the end of its cleanup. -/
theorem stopped_step (hstopped : s.Stopped) {step : TaskStep} (hstep : step.OfState) :
    (s.step step = s) ∨ s.state = .cleaning ∧ ∃ cancelled, step = .stateCleaned cancelled := by
  rcases hstopped with hstate | hstate
  · cases step with
    | stateTake => exact Or.inl (by simp only [Tasks.step, hstate])
    | stateEvent keep => exact Or.inl (by simp only [Tasks.step, Tasks.processEvent, hstate])
    | stateFails reached => exact Or.inl (by simp only [Tasks.step, hstate])
    | stateCommits => exact Or.inl (by simp only [Tasks.step, hstate])
    | stateCleaned cancelled => exact Or.inr ⟨hstate, cancelled, rfl⟩
    | _ => exact absurd hstep id
  · left
    cases step with
    | stateTake => simp only [Tasks.step, hstate]
    | stateEvent keep => simp only [Tasks.step, Tasks.processEvent, hstate]
    | stateFails reached => simp only [Tasks.step, hstate]
    | stateCommits => simp only [Tasks.step, hstate]
    | stateCleaned cancelled => simp only [Tasks.step, hstate]
    | _ => exact absurd hstep id

/-- A worker that runs on a state that is not poisoned goes on, or poisons it. -/
theorem running_step (hrunning : ¬ s.Stopped) (hclean : s.poisoned = false) {step : TaskStep}
    (hstep : step.OfState) :
    (∃ failed : Tasks, s.step step = failed.poison) ∨
      (s.step step).poisoned = false ∧ ¬ (s.step step).Stopped := by
  cases step with
  | stateTake =>
      right
      rw [Tasks.step]
      split
      · exact ⟨hclean, by rintro (h | h) <;> cases h⟩
      · exact ⟨hclean, hrunning⟩
  | stateEvent keep =>
      rw [Tasks.step, Tasks.processEvent]
      split
      · rw [if_neg (by rw [hclean]; exact Bool.false_ne_true)]
        exact Or.inr ⟨hclean, by rintro (h | h) <;> cases h⟩
      · exact Or.inr ⟨hclean, hrunning⟩
  | stateFails reached =>
      rw [Tasks.step]
      split
      · split
        · exact Or.inl ⟨_, rfl⟩
        · exact Or.inl ⟨_, rfl⟩
      · exact Or.inr ⟨hclean, hrunning⟩
  | stateCommits =>
      right
      rw [Tasks.step]
      split
      · exact ⟨hclean, by rintro (h | h) <;> cases h⟩
      · exact ⟨hclean, hrunning⟩
  | stateCleaned cancelled =>
      right
      rw [Tasks.step]
      split
      · rename_i hcleaning
        exact absurd (Or.inl hcleaning) hrunning
      · exact ⟨hclean, hrunning⟩
  | _ => exact absurd hstep id

theorem Tasks.Marked.clean (h : s.Marked) (hrunning : ¬ s.Stopped) : s.poisoned = false :=
  Bool.eq_false_iff.mpr fun hpoisoned => hrunning (h hpoisoned)

theorem Tasks.Marked.step (h : s.Marked) (step : TaskStep) : (s.step step).Marked := by
  by_cases hstep : step.OfState
  · by_cases hstopped : s.Stopped
    · rcases stopped_step hstopped hstep with hsame | ⟨hcleaning, cancelled, rfl⟩
      · rw [hsame]
        exact h
      · intro _
        simp only [Tasks.Stopped, Tasks.step, hcleaning, or_true]
    · rcases running_step hstopped (h.clean hstopped) hstep with ⟨failed, hfailed⟩ | ⟨hclean, -⟩
      · rw [hfailed]
        exact failed.poison_closed.marked
      · intro hpoisoned
        rw [hclean] at hpoisoned
        cases hpoisoned
  · have hby := bystander s hstep
    intro hpoisoned
    rw [Tasks.Stopped, hby.state]
    exact h (hby.poisoned ▸ hpoisoned)

theorem Tasks.Closed.step (h : s.Closed) {step : TaskStep} (hguard : Undisturbed s step) :
    (s.step step).Closed := by
  by_cases hstep : step.OfState
  · by_cases hstopped : s.Stopped
    · rcases stopped_step hstopped hstep with hsame | ⟨hcleaning, cancelled, rfl⟩
      · rw [hsame]
        exact h
      · have hblocked : .databaseUnavailable ∈ s.gate.requestFatalRestart.reasons :=
          Finset.mem_insert_self _ _
        simp only [Tasks.step, hcleaning]
        refine ⟨fun _ => Or.inr rfl, nofun, fun _ => ?_⟩
        dsimp only
        split
        · exact hblocked
        · exact mem_block _ hblocked
    · rcases running_step hstopped (h.marked.clean hstopped) hstep with
        ⟨failed, hfailed⟩ | ⟨hclean, hrunning⟩
      · rw [hfailed]
        exact failed.poison_closed
      · refine ⟨fun hpoisoned => ?_, fun hcleaning => absurd (Or.inl hcleaning) hrunning,
          fun hended => absurd (Or.inr hended) hrunning⟩
        rw [hclean] at hpoisoned
        cases hpoisoned
  · have hby := bystander s hstep
    refine ⟨h.marked.step step, fun hcleaning => ?_, fun hended => ?_⟩
    · rw [hby.state] at hcleaning
      exact hby.reasons _ (h.cleaning hcleaning) (Or.inl rfl)
        fun hsucceeds => absurd hcleaning (hguard hsucceeds)
    · rw [hby.state] at hended
      exact hby.reasons _ (h.ended hended) (Or.inr rfl) nofun

/-- A poisoned state is left as it is. -/
theorem Tasks.Marked.applied_step (h : s.Marked) (hpoisoned : s.poisoned = true)
    (step : TaskStep) :
    (s.step step).poisoned = true ∧ (s.step step).applied = s.applied := by
  by_cases hstep : step.OfState
  · rcases stopped_step (h hpoisoned) hstep with hsame | ⟨hcleaning, cancelled, rfl⟩
    · rw [hsame]
      exact ⟨hpoisoned, rfl⟩
    · simp only [Tasks.step, hcleaning]
      exact ⟨hpoisoned, trivial⟩
  · have hby := bystander s hstep
    exact ⟨hby.poisoned.trans hpoisoned, hby.applied⟩

theorem Tasks.Closed.not_enabled (h : s.Closed) (hpoisoned : s.poisoned = true) :
    ¬ s.gate.Enabled := by
  rcases h.marked hpoisoned with hcleaning | hended
  · exact Runtime.not_enabled (h.cleaning hcleaning)
  · exact Runtime.not_enabled (h.ended hended)

theorem Tasks.Closed.entryCalls_step (h : s.Closed) (hpoisoned : s.poisoned = true)
    (step : TaskStep) : (s.step step).entryCalls = s.entryCalls := by
  by_cases hstep : step.OfState
  · rcases stopped_step (h.marked hpoisoned) hstep with hsame | ⟨hcleaning, cancelled, rfl⟩
    · rw [hsame]
    · simp only [Tasks.step, hcleaning]
  · exact (bystander s hstep).entryCalls (h.not_enabled hpoisoned)

end StateWorker

/-! ## Runs -/

theorem Tasks.Marked.start : ({} : Tasks).Marked := nofun

theorem Tasks.Closed.start : ({} : Tasks).Closed := ⟨nofun, nofun, nofun⟩

/-- Whatever the tasks do, no event is applied to a poisoned state. -/
theorem poisoned_run_applies_nothing {before : List TaskStep} (after : List TaskStep)
    (hpoisoned : (exec Tasks.step {} before).poisoned = true) :
    (exec Tasks.step {} (before ++ after)).poisoned = true ∧
      (exec Tasks.step {} (before ++ after)).applied = (exec Tasks.step {} before).applied := by
  have hmarked : (exec Tasks.step {} before).Marked :=
    exec_invariant (fun _ step h => h.step step) Tasks.Marked.start before
  rw [exec_append]
  refine exec_relates (I := fun s : Tasks => s.Marked ∧ s.poisoned = true)
    (R := fun s t : Tasks => s.poisoned = true → t.poisoned = true ∧ t.applied = s.applied)
    (fun _ h => ⟨h, rfl⟩) ?_ ?_ (fun _ step h _ => h.1.applied_step h.2 step)
    ⟨hmarked, hpoisoned⟩ after hpoisoned
  · intro _ _ _ hst htu hs
    obtain ⟨hmid, hfirst⟩ := hst hs
    obtain ⟨hend, hsecond⟩ := htu hmid
    exact ⟨hend, hsecond.trans hfirst⟩
  · exact fun _ step h => ⟨h.1.step step, (h.1.applied_step h.2 step).1⟩

/-- When no batch of the stream worker succeeds while the state worker cleans up, then from the
poisoning on no event is applied, no entry handler is started, and the gate stays closed. -/
theorem poisoned_run_closed {before after : List TaskStep}
    (hpoisoned : (exec Tasks.step {} before).poisoned = true)
    (hundisturbed : Along Undisturbed Tasks.step {} (before ++ after)) :
    (exec Tasks.step {} (before ++ after)).applied = (exec Tasks.step {} before).applied ∧
      (exec Tasks.step {} (before ++ after)).entryCalls = (exec Tasks.step {} before).entryCalls ∧
      ¬ (exec Tasks.step {} (before ++ after)).gate.Enabled := by
  obtain ⟨hbefore, hafter⟩ := Along.append_iff.mp hundisturbed
  have hinv : ∀ s step, s.Closed → Undisturbed s step → (s.step step).Closed :=
    fun _ _ h hguard => h.step hguard
  have hclosed : (exec Tasks.step {} before).Closed :=
    Along.invariant hinv Tasks.Closed.start hbefore
  obtain ⟨hstill, happlied⟩ := poisoned_run_applies_nothing after hpoisoned
  refine ⟨happlied, ?_, (Along.invariant hinv Tasks.Closed.start hundisturbed).not_enabled hstill⟩
  rw [exec_append]
  refine Along.relates (I := fun s : Tasks => s.Closed ∧ s.poisoned = true)
    (R := fun s t : Tasks => t.entryCalls = s.entryCalls) (fun _ => rfl) ?_ ?_
    (fun _ step h _ => h.1.entryCalls_step h.2 step) ⟨hclosed, hpoisoned⟩ hafter
  · intro _ _ _ hst htu
    exact htu.trans hst
  · exact fun s step h hguard =>
      ⟨hinv s step h.1 hguard, (h.1.marked.applied_step h.2 step).1⟩

/-- A batch reaches the state worker, a second one is being decoded, and the first one fails. -/
def failedBatch : List TaskStep :=
  [.streamTake, .streamEnqueue ["event"], .streamSucceeds, .durableTake, .durableHands ["event"],
    .stateTake, .streamTake, .stateEvent true, .stateFails false]

/-- The fatal handler blocks the gate before the second batch succeeds. -/
theorem poisoned_run_closed_cleaned :
    let s := exec Tasks.step {} (failedBatch ++ [.stateCleaned false, .streamSucceeds,
      .unblockElsewhere .startup, .unblockElsewhere .warmup, .candidatePass,
      .candidateEnters "candidate" true])
    s.applied = ["event"] ∧ s.entryCalls = [] ∧ ¬ s.gate.Enabled :=
  @poisoned_run_closed failedBatch _ (by decide) (by decide)

/-- The second batch succeeds while the first one is marked as failed: the gate opens over a
poisoned state, and the entry handler is started. -/
theorem stream_success_reopens :
    let s := exec Tasks.step {} (.unblockElsewhere .startup :: .unblockElsewhere .warmup ::
      failedBatch)
    let t := exec Tasks.step s [.streamSucceeds, .candidatePass, .candidateEnters "candidate" true]
    s.poisoned = true ∧ s.entryCalls = [] ∧ t.poisoned = true ∧ t.gate.Enabled ∧
      t.entryCalls = ["candidate"] := by
  decide

end SniperBot.Runtime
