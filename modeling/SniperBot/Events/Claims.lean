import SniperBot.Domain
import SniperBot.Basis.Dict

/-!
# Durable event claims

`record_events`, `mark_events_processed`, `mark_events_failed` and `release_event_claim`
(`database.py`). The table `event_dedup` holds one row per event id; a row in `PROCESSING`
stores the token of the database instance that claimed it, and each instance keeps its tokens in
memory. `raw_chain_events` gives every event its ingest sequence. Tokens are numbers, drawn from
one counter, so that a drawn token is never drawn again.

A call is one transaction. It may also end with an error: before the commit, when nothing is
stored and the tokens are compared with the table again, or at the commit, when the caller
cannot know whether the rows are stored.

The columns that only describe the event are left out: an event is its id.
-/

namespace SniperBot.Events

open Basis

/-! ## Tables -/

inductive ClaimStatus
  | processing | processed | failed
  deriving DecidableEq, Repr

/-- A row of `event_dedup`. -/
structure DedupRow where
  status : ClaimStatus
  attempts : Nat
  lastAttemptAt : Option Time
  processedAt : Option Time
  lastError : Option String
  token : Option Nat
  deriving DecidableEq, Repr

inductive Dialect
  | postgresql | sqlite
  deriving DecidableEq, Repr

/-- The claim table, the ingest sequences and the last value of the database sequence. -/
structure EventDb where
  dedup : Dict String DedupRow := Dict.empty
  raw : Dict String Nat := Dict.empty
  lastSequence : Nat := 0

/-- The value after which sequences are given out: the greatest stored one, or the counter of
the sequence object. -/
def EventDb.sequenceBase (dialect : Dialect) (db : EventDb) : Nat :=
  match dialect with
  | .sqlite => db.raw.values.foldr max 0
  | .postgresql => db.lastSequence

/-! ## Claiming -/

/-- `MAX_EVENT_BATCH_SIZE` -/
def maxEventBatchSize : Nat := 1024

/-- The loop that builds `unique_events`. -/
def firstOccurrences (ids : List String) : List String :=
  ids.foldl (fun unique id => if id ∈ unique then unique else unique ++ [id]) []

/-- The loop that builds `claim_tokens`: a held token is used again, a missing one is drawn. -/
def assignTokens : List String → Dict String Nat → Nat → Dict String Nat × Nat
  | [], held, next => (held, next)
  | id :: ids, held, next =>
      match held.get? id with
      | some _ => assignTokens ids held next
      | none => assignTokens ids (held.set id next) (next + 1)

/-- How `record_events` was called. -/
structure ClaimCall where
  now : Time
  reclaim : Bool := false
  resumeOwned : Bool := false

/-- A claim whose last attempt is two minutes old. -/
def ClaimCall.Stale (call : ClaimCall) (row : DedupRow) : Prop :=
  ∀ attempt ∈ row.lastAttemptAt, seconds 120 ≤ call.now - attempt

instance (call : ClaimCall) (row : DedupRow) : Decidable (call.Stale row) := by
  unfold ClaimCall.Stale
  infer_instance

/-- What becomes of one event of a batch: claimed, not claimed but held already, or refused. -/
inductive Verdict
  | claimed | owned | refused
  deriving DecidableEq, Repr

/-- The owner meets its own claim again. -/
def ClaimCall.Resumes (call : ClaimCall) (held : Option Nat) (row : DedupRow) : Prop :=
  call.resumeOwned = true ∧ held ≠ none ∧ row.status = .processing ∧ row.token = held

instance (call : ClaimCall) (held : Option Nat) (row : DedupRow) :
    Decidable (call.Resumes held row) := inferInstanceAs (Decidable (_ ∧ _))

/-- The row is settled, or claimed by a live owner. -/
def ClaimCall.Blocked (call : ClaimCall) (row : DedupRow) : Prop :=
  row.status = .processed ∨ (row.status = .processing ∧ ¬ call.Stale row ∧ call.reclaim = false)

instance (call : ClaimCall) (row : DedupRow) : Decidable (call.Blocked row) :=
  inferInstanceAs (Decidable (_ ∨ _))

/-- The verdict on an event with the token `held` in memory and the token `claim` for the call. -/
def ClaimCall.verdict (call : ClaimCall) (held claim : Option Nat) : Option DedupRow → Verdict
  | none => .claimed
  | some row =>
      if call.Resumes held row then .claimed
      else if call.Blocked row then
        if row.status = .processing ∧ row.token = claim then .owned else .refused
      else .claimed

/-- The row of an event after the call. -/
def ClaimCall.row (call : ClaimCall) (held claim : Option Nat) : Option DedupRow → DedupRow
  | none =>
      { status := .processing, attempts := 1, lastAttemptAt := some call.now, processedAt := none
        lastError := none, token := claim }
  | some row =>
      if call.Resumes held row then row
      else if call.Blocked row then row
      else
        { row with
          status := .processing, attempts := row.attempts + 1, lastAttemptAt := some call.now
          lastError := none, token := claim }

/-- The events of a batch that the table does not know, in first-occurrence order. -/
def EventDb.newEvents (db : EventDb) (unique : List String) : List String :=
  unique.filter fun id => db.dedup.get? id = none

/-- Consecutive sequences from `n` on. -/
def assignSequences : List String → Nat → Dict String Nat → Dict String Nat
  | [], _, raw => raw
  | id :: ids, n, raw => assignSequences ids (n + 1) (raw.set id n)

/-- The transaction of `record_events`; `claims` are the tokens of the call and `held` those in
memory when the rows are read. -/
def EventDb.claimBatch (dialect : Dialect) (call : ClaimCall) (held claims : Dict String Nat)
    (unique : List String) (db : EventDb) : EventDb where
  dedup := unique.foldl (fun rows id =>
    rows.set id (call.row (held.get? id) (claims.get? id) (rows.get? id))) db.dedup
  raw := assignSequences (db.newEvents unique) (db.sequenceBase dialect + 1) db.raw
  lastSequence :=
    match dialect with
    | .sqlite => db.lastSequence
    | .postgresql => db.lastSequence + (db.newEvents unique).length

/-- The verdict on an event of the batch, read from the table before the transaction. -/
def EventDb.verdict (db : EventDb) (call : ClaimCall) (held claims : Dict String Nat)
    (id : String) : Verdict :=
  call.verdict (held.get? id) (claims.get? id) (db.dedup.get? id)

/-- The tokens after the transaction: those of refused events are dropped. -/
def dropTokens (held claims : Dict String Nat) (unique : List String)
    (retained : String → Bool) : Dict String Nat :=
  held.filter fun id token => !(id ∈ unique && !retained id && claims.get? id = some token)

/-! ## Settling -/

inductive Settlement
  | processed
  | failed (errorName : String)

/-- The row after its owner settled it. -/
def Settlement.row (how : Settlement) (at' : Time) (row : DedupRow) : DedupRow :=
  match how with
  | .processed =>
      { row with
        status := .processed, processedAt := some at', lastAttemptAt := some at'
        lastError := none, token := none }
  | .failed errorName =>
      { row with
        status := .failed, lastAttemptAt := some at', lastError := some errorName, token := none }

/-- The table still holds the claim of an event with this token. -/
def EventDb.Owns (db : EventDb) (held : Dict String Nat) (id : String) : Prop :=
  ∃ row ∈ db.dedup.get? id, row.status = .processing ∧ row.token ≠ none ∧
    row.token = held.get? id

instance (db : EventDb) (held : Dict String Nat) (id : String) : Decidable (db.Owns held id) := by
  unfold EventDb.Owns
  infer_instance

/-- The transaction of `_execute_mark_events_processed` and of `mark_events_failed`. -/
def EventDb.settleBatch (how : Settlement) (at' : Time) (unique : List String) (db : EventDb) :
    EventDb :=
  { db with
    dedup := unique.foldl (fun rows id => rows.update id (how.row at')) db.dedup }

/-! ## Instances -/

/-- The database and the tokens that its instances keep in memory. -/
structure World where
  db : EventDb := {}
  held : Nat → Dict String Nat := fun _ => Dict.empty
  next : Nat := 0

/-- How a call ends. -/
inductive Outcome
  | committed
  /-- The body raised; the tokens were compared with the table, unless that failed too.
  Sequence values that were drawn stay drawn. -/
  | rolledBack (reconciled : Bool) (drawn : Nat)
  /-- The commit raised after the body; the rows may be stored. -/
  | unknown (stored : Bool)
  deriving DecidableEq, Repr

/-- `record_events` of one instance. -/
def World.recordEvents (dialect : Dialect) (w : World) (owner : Nat) (ids : List String)
    (call : ClaimCall) (outcome : Outcome) : World :=
  if ids = [] ∨ ids.length > maxEventBatchSize then w
  else
    let unique := firstOccurrences ids
    let assigned := assignTokens unique (w.held owner) w.next
    let claims := assigned.1
    let keep := fun tokens => Function.update w.held owner tokens
    let written := w.db.claimBatch dialect call claims claims unique
    match outcome with
    | .committed =>
        { db := written
          held := keep (dropTokens claims claims unique fun id =>
            w.db.verdict call claims claims id ≠ .refused)
          next := assigned.2 }
    | .rolledBack reconciled drawn =>
        { db := { w.db with lastSequence := w.db.lastSequence + drawn }
          held := keep (if reconciled then
              dropTokens claims claims unique fun id => decide (w.db.Owns claims id)
            else claims)
          next := assigned.2 }
    | .unknown stored =>
        { db := if stored then written
            else { w.db with lastSequence := written.lastSequence }
          held := keep claims
          next := assigned.2 }

/-- `mark_events_processed` and `mark_events_failed` of one instance. -/
def World.settleEvents (w : World) (owner : Nat) (ids : List String) (how : Settlement)
    (at' : Time) (outcome : Outcome) : World :=
  let unique := firstOccurrences ids
  if ∀ id ∈ unique, w.db.Owns (w.held owner) id then
    let written := w.db.settleBatch how at' unique
    match outcome with
    | .committed =>
        { w with
          db := written
          held := Function.update w.held owner
            (dropTokens (w.held owner) (w.held owner) unique fun _ => false) }
    | .rolledBack _ _ => w
    | .unknown stored => { w with db := if stored then written else w.db }
  else w

/-- `release_event_claim` of one instance. -/
def World.releaseClaim (w : World) (owner : Nat) (id : String) : World :=
  { w with held := Function.update w.held owner ((w.held owner).erase id) }

inductive ClaimOp
  | record (owner : Nat) (ids : List String) (call : ClaimCall) (outcome : Outcome)
  | settle (owner : Nat) (ids : List String) (how : Settlement) (at' : Time) (outcome : Outcome)
  | release (owner : Nat) (id : String)

def World.apply (dialect : Dialect) (w : World) : ClaimOp → World
  | .record owner ids call outcome => w.recordEvents dialect owner ids call outcome
  | .settle owner ids how at' outcome => w.settleEvents owner ids how at' outcome
  | .release owner id => w.releaseClaim owner id

end SniperBot.Events
