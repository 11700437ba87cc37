import SniperBot.Events.Claims
import SniperBot.Basis.Run

/-!
# The ordered ingestion pipeline

`process_transactions` and the durable and state workers of one pipeline (`pipeline.py`), with
`EventDeduplicator` (`events.py`). Batches of decoded events wait in the durable queue; the
durable worker claims them in the database and hands the claimed events to the state queue; the
state worker runs each event through the local deduplicator and the state, stages its claim, and
settles the claims of the batch in one transaction. Both workers run on one event loop, so a
`Step` is the code between two awaits at which the other worker can observe or change something.

Every database call succeeds and every event is valid: what remains of the error paths is what
the pipeline raises itself. An event is its id; the archive stage and the metrics are left out.
-/

namespace SniperBot.Events

open Basis

/-! ## Batches -/

/-- The loop of `process_transactions` that packs the events of whole transactions into batches;
`none` when one transaction exceeds the limit. -/
def eventBatches : List (List String) → List String → Option (List (List String))
  | [], current => some (if current = [] then [] else [current])
  | decoded :: rest, current =>
      if decoded.length > maxEventBatchSize then none
      else if current ≠ [] ∧ current.length + decoded.length > maxEventBatchSize then
        (eventBatches rest decoded).map (current :: ·)
      else eventBatches rest (current ++ decoded)

/-- The loop of `_collect_stage_batch`: queued batches join while they fit. A batch that was
taken and does not fit comes next, as if it had stayed at the head of the queue. -/
def collectStageBatch : List String → List (List String) → List String × List (List String)
  | events, [] => (events, [])
  | events, batch :: queue =>
      if events.length + batch.length > maxEventBatchSize then (events, batch :: queue)
      else collectStageBatch (events ++ batch) queue

/-! ## Local deduplication -/

/-- `EventDeduplicator`; the ids are in the order of their last use. -/
structure Deduplicator where
  capacity : Nat := 100000
  seen : List String := []

def Deduplicator.accept (d : Deduplicator) (id : String) : Bool × Deduplicator :=
  if id ∈ d.seen then (false, { d with seen := d.seen.erase id ++ [id] })
  else
    let seen := d.seen ++ [id]
    (true, { d with seen := if seen.length > d.capacity then seen.tail else seen })

/-! ## Workers -/

/-- Where the durable worker stands in `_apply_durable_batch` and `record_events`. -/
inductive DurablePhase
  | idle
  /-- The tokens of the batch are in memory, the transaction has not run. -/
  | assigned (events : List String) (claims : Dict String Nat) (now : Time)
  /-- The claims are stored, the tokens of refused events are still in memory. -/
  | recorded (events : List String) (claims : Dict String Nat) (retained claimed : List String)
  /-- The claimed events are on their way to the state queue. -/
  | handing (events : List String)

/-- Where the state worker stands in `_process_claimed_event_batch`. -/
inductive StatePhase
  | idle
  /-- Inside `event_state_batch_transaction`, with the staged claims. -/
  | applying (done todo : List String) (staged : Dict String Nat)
  /-- The transaction is committed, the tokens are still in memory. -/
  | committed (events : List String)
  /-- An exception left the transaction. -/
  | failing (events : List String)
  | stopped

structure Pipeline where
  db : EventDb := {}
  held : Dict String Nat := Dict.empty
  next : Nat := 0
  deduplicator : Deduplicator := {}
  durableQueue : List (List String) := []
  durable : DurablePhase := .idle
  stateQueue : List (List String) := []
  state : StatePhase := .idle
  poisoned : Bool := false
  /-- The ids that were ever queued. -/
  ingested : List String := []
  /-- The ids that reached the state, and whether the state filter let them through. -/
  handled : List (String × Bool) := []

/-- A process that starts on the tables an earlier one left. -/
def Pipeline.started (db : EventDb) (next : Nat) (deduplicator : Deduplicator) : Pipeline :=
  { db := db, next := next, deduplicator := deduplicator }

/-- `process_transactions`, by the decoded events of each transaction. A call whose batches are
queued with worker steps in between is the same as several calls. -/
def Pipeline.processTransactions (s : Pipeline) (decoded : List (List String)) : Pipeline :=
  if s.poisoned then s
  else
    match eventBatches decoded [] with
    | none => s
    | some batches =>
        { s with
          durableQueue := s.durableQueue ++ batches
          ingested := s.ingested ++ batches.flatten }

/-! ## The durable worker -/

/-- The call that the durable worker makes. -/
def durableCall (now : Time) : ClaimCall := { now := now, resumeOwned := true }

/-- The worker takes a batch and `record_events` assigns its tokens. -/
def Pipeline.assign (s : Pipeline) (now : Time) : Pipeline :=
  match s.durable, s.durableQueue with
  | .idle, first :: queue =>
      let batch := collectStageBatch first queue
      if batch.1 = [] ∨ batch.1.length > maxEventBatchSize then s
      else
        let assigned := assignTokens (firstOccurrences batch.1) s.held s.next
        { s with
          held := assigned.1, next := assigned.2, durableQueue := batch.2
          durable := .assigned batch.1 assigned.1 now }
  | _, _ => s

/-- The transaction of `record_events`. -/
def Pipeline.record (dialect : Dialect) (s : Pipeline) : Pipeline :=
  match s.durable with
  | .assigned events claims now =>
      let unique := firstOccurrences events
      let verdict := s.db.verdict (durableCall now) s.held claims
      { s with
        db := s.db.claimBatch dialect (durableCall now) s.held claims unique
        durable := .recorded events claims (unique.filter fun id => verdict id ≠ .refused)
          (unique.filter fun id => verdict id = .claimed) }
  | _ => s

/-- The end of `record_events`. -/
def Pipeline.clean (s : Pipeline) : Pipeline :=
  match s.durable with
  | .recorded events claims retained claimed =>
      { s with
        held := dropTokens s.held claims (firstOccurrences events) fun id => decide (id ∈ retained)
        durable := if claimed = [] then .idle else .handing claimed }
  | _ => s

/-- `_enqueue_stage` of the claimed events. -/
def Pipeline.enqueue (s : Pipeline) : Pipeline :=
  match s.durable with
  | .handing events => { s with stateQueue := s.stateQueue ++ [events], durable := .idle }
  | _ => s

/-! ## The state worker -/

/-- The worker takes a batch and opens its transaction. -/
def Pipeline.collect (s : Pipeline) : Pipeline :=
  match s.state, s.stateQueue with
  | .idle, first :: queue =>
      let batch := collectStageBatch first queue
      { s with stateQueue := batch.2, state := .applying [] batch.1 Dict.empty }
  | _, _ => s

/-- `_poison_state` -/
def Pipeline.poison (s : Pipeline) (events : List String) : Pipeline :=
  { s with poisoned := true, state := .failing events }

/-- `process_event` for the next event of the batch; `keep` is the answer of the state filter. -/
def Pipeline.processEvent (s : Pipeline) (keep : Bool) : Pipeline :=
  match s.state with
  | .applying done (id :: todo) staged =>
      if s.poisoned then s.poison (done ++ id :: todo)
      else
        let answer := s.deduplicator.accept id
        let s := { s with deduplicator := answer.2 }
        -- a claimed event that the local deduplicator knows is an error of the batch
        if answer.1 = false then s.poison (done ++ id :: todo)
        else
          let s := { s with handled := s.handled ++ [(id, keep)] }
          match s.held.get? id with
          | none => s.poison (done ++ id :: todo)
          | some token =>
              if staged.get? id = none ∨ staged.get? id = some token then
                { s with state := .applying (done ++ [id]) todo (staged.set id token) }
              else s.poison (done ++ id :: todo)
  | _ => s

/-- The flush and commit of `event_state_batch_transaction`. -/
def Pipeline.commit (s : Pipeline) (at' : Time) : Pipeline :=
  match s.state with
  | .applying done [] staged =>
      if ∀ id ∈ staged.keys, s.db.Owns staged id then
        { s with
          db := s.db.settleBatch .processed at' staged.keys
          state := .committed done }
      else s.poison done
  | _ => s

/-- `release_event_claim` for every event of the batch. -/
def Pipeline.release (s : Pipeline) : Pipeline :=
  match s.state with
  | .committed events =>
      { s with held := events.foldl Dict.erase s.held, state := .idle }
  | _ => s

/-- `mark_events_failed` of a batch that raised, if it succeeds in time; the worker ends. -/
def Pipeline.abandon (s : Pipeline) (at' : Time) (inTime : Bool) : Pipeline :=
  match s.state with
  | .failing events =>
      let unique := firstOccurrences events
      if inTime ∧ ∀ id ∈ unique, s.db.Owns s.held id then
        { s with
          db := s.db.settleBatch (.failed "RuntimeError") at' unique
          held := dropTokens s.held s.held unique fun _ => false
          state := .stopped }
      else { s with state := .stopped }
  | _ => s

/-! ## Where an event is -/

/-- Claimed by the transaction and not yet handed over. -/
def DurablePhase.inFlight : DurablePhase → List String
  | .recorded _ _ _ claimed => claimed
  | .handing events => events
  | _ => []

/-- The batch that the durable worker has taken and not yet recorded. -/
def DurablePhase.batch : DurablePhase → List String
  | .assigned events _ _ => events
  | _ => []

def StatePhase.inFlight : StatePhase → List String
  | .applying done todo _ => done ++ todo
  | _ => []

/-- The part of the open batch that has been applied. -/
def StatePhase.done : StatePhase → List String
  | .applying done _ _ => done
  | _ => []

/-- The events between their claim and their commit, oldest first. -/
def Pipeline.inFlight (s : Pipeline) : List String :=
  s.state.inFlight ++ s.stateQueue.flatten ++ s.durable.inFlight

/-- Nothing is left to do. -/
structure Pipeline.Drained (s : Pipeline) : Prop where
  durableQueue : s.durableQueue = []
  durable : s.durable = .idle
  stateQueue : s.stateQueue = []
  state : s.state = .idle

/-! ## Interleavings -/

inductive Step
  | processTransactions (decoded : List (List String))
  | assign (now : Time) | record | clean | enqueue
  | collect | processEvent (keep : Bool) | commit (at' : Time) | release
  | abandon (at' : Time) (inTime : Bool)

def Pipeline.apply (dialect : Dialect) (s : Pipeline) : Step → Pipeline
  | .processTransactions decoded => s.processTransactions decoded
  | .assign now => s.assign now
  | .record => s.record dialect
  | .clean => s.clean
  | .enqueue => s.enqueue
  | .collect => s.collect
  | .processEvent keep => s.processEvent keep
  | .commit at' => s.commit at'
  | .release => s.release
  | .abandon at' inTime => s.abandon at' inTime

/-- A transaction of the durable worker that meets no claim which the pipeline still holds. -/
def Step.Undisturbed (s : Pipeline) : Step → Prop
  | .record => ∀ id ∈ s.durable.batch, ¬ s.db.Owns s.held id
  | _ => True

instance (s : Pipeline) : (step : Step) → Decidable (step.Undisturbed s)
  | .record => inferInstanceAs (Decidable (∀ id ∈ s.durable.batch, ¬ s.db.Owns s.held id))
  | .processTransactions _ | .assign _ | .clean | .enqueue | .collect | .processEvent _
  | .commit _ | .release | .abandon _ _ => inferInstanceAs (Decidable True)

end SniperBot.Events
