import SniperBot.Runtime.Controls
import SniperBot.Candidates.Interleaving
import SniperBot.Features.Filter

/-!
# Candidates and their positions

The candidate loop and the exit loop between two awaits, with the candidates beside the ledger. An
entry commits its rows, then books the ledger and sets `POSITION_OPEN` without an await, and stores
the candidate in a later transaction. The exit loop sets `EXIT_PENDING`, closes, and then sets what
the position has become. `TradeState.stored` are the candidate rows, `upserts` the writes of
`upsert_candidate` that have not reached them; a restart starts from the rows.
-/

namespace SniperBot.Runtime

open Basis Ledger Risk Paper Exits Security Candidates

/-! ## States -/

/-- A close of the exit loop, from the `EXIT_PENDING` of its candidate on. -/
structure Closing where
  positionId : String
  /-- the reason in the order id -/
  code : String
  fraction : ℚ
  /-- the quote of the position has failed for too long -/
  givenUp : Bool
  candidateId : Option String

structure TradeState extends PassState where
  pipeline : Pipeline
  closing : Option Closing
  upserts : List Candidate
  stored : Dict String Candidate

def TradeState.init (config : BrokerConfig) (startingEquity : ℚ) (now : Time) : TradeState where
  toPassState := PassState.init config startingEquity now
  pipeline := ⟨Dict.empty, []⟩
  closing := none
  upserts := []
  stored := Dict.empty

/-! ## Candidates -/

section Candidates

variable (s : TradeState)

/-- The candidate is kept in the map, and its row is to be written. -/
def TradeState.put (id : String) (candidate : Candidate) : TradeState :=
  { s with
    pipeline := { s.pipeline with candidates := s.pipeline.candidates.set id candidate }
    upserts := s.upserts ++ [candidate] }

/-- An exception ends the evaluation pass. -/
def TradeState.abortPass : TradeState :=
  { s with entry := .idle, pipeline := { s.pipeline with pass := [] } }

/-- The result for the next candidate of the pass. -/
def TradeState.writeBack (id : String) (rest : List (String × Candidate))
    (result : Except CandidateError Candidate) : TradeState :=
  match result with
  | .ok next =>
      let kept := s.put id next
      { kept with entry := .idle, pipeline := { kept.pipeline with pass := rest } }
  | .error _ => s.abortPass

/-- `transition_candidate`, and whether it returns. -/
def TradeState.transitionCandidate (id : String) (target : CandidateState) (at' : Time) :
    TradeState × Bool :=
  match s.pipeline.candidates.get? id with
  | none => (s, true)
  | some candidate =>
      match transition candidate target at' with
      | .ok updated => (s.put id updated, true)
      | .error _ => (s, false)

end Candidates

/-! ## Entries -/

/-- What `broker.open` draws for an entry. -/
structure EntryDraw where
  positionId : String
  id_ne : positionId ≠ ""
  fillId : String
  quoteId : String
  filledAt : Time
  quote : Option ExecutableQuote
  entryScore : Option ℚ := none
  entryLiquidityUsd : Option ℚ := none
  entryPoolAgeSeconds : Option ℚ := none
  roundTripCostPct : Option ℚ := none

/-- The call of `broker.open` in `_open_candidate`. -/
def entryRequest (candidate : Candidate) (usdcAmount : ℚ) (now : Time) (draw : EntryDraw) :
    OpenRequest where
  tokenMint := candidate.mint
  usdcAmount := usdcAmount
  orderId := some (entryOrder candidate.candidateId)
  candidateId := some candidate.candidateId
  poolAddress := some candidate.poolAddress
  entryScore := draw.entryScore
  entryLiquidityUsd := draw.entryLiquidityUsd
  entryPoolAgeSeconds := draw.entryPoolAgeSeconds
  roundTripCostPct := draw.roundTripCostPct
  drawnOrderId := ""
  positionId := draw.positionId
  fillId := draw.fillId
  quoteId := draw.quoteId
  now := now
  filledAt := draw.filledAt
  quote := draw.quote

/-- How `_open_candidate` reports a refusal of the risk check. -/
def riskRejectReason (reason : String) : RejectReason :=
  if reason = "MAX_OPEN_POSITIONS_LIMIT" then .maxOpenPositions
  else if reason = "DAILY_LOSS_LIMIT" then .dailyRiskLimit
  else .riskManagerBlocked

section Entry

variable (config : BrokerConfig) (s : TradeState)

/-- `broker.open` up to the buy quote. -/
def TradeState.openEntry (id : String) (copy : Candidate) (rest : List (String × Candidate))
    (at' : Time) (req : OpenRequest) : TradeState :=
  match repeatedFill s.ledger req.orderId .entry with
  | some fill =>
      match repeatedAnswer s.ledger req.tokenMint fill with
      | .ok _ => s.writeBack id rest (transition copy .positionOpen at')
      | .error _ => s.abortPass
  | none =>
      let checked := Exits.checkEntry config s.toPassState req
      match checked.entry with
      | .checked _ => { s with toPassState := checked }
      | _ => { s with toPassState := checked }.abortPass

/-- `_open_candidate` up to the buy quote, for the next candidate of the pass. -/
def TradeState.openCandidate (id : String) (copy : Candidate) (rest : List (String × Candidate))
    (at' now : Time) (sizing : Except RejectReason ℚ) (draw : EntryDraw) : TradeState :=
  match sizing with
  | .error reason => s.writeBack id rest (transition copy .rejected at' (some reason))
  | .ok usdcAmount =>
      match evaluateEntry config.risk config.zone now s.ledger usdcAmount copy.mint with
      | (.error _, ledger) => { s with ledger := ledger }.abortPass
      | (.ok (.block reason), ledger) =>
          let persisted := (persistRiskState config.ownedRun (controls ledger) now s.db).2
          { s with ledger := ledger, db := persisted }.writeBack id rest
            (transition copy .rejected at' (some (riskRejectReason reason)))
      | (.ok .allow, ledger) =>
          { s with ledger := ledger }.openEntry config id copy rest at'
            (entryRequest copy usdcAmount now draw)

def TradeState.commitEntry (req : OpenRequest) : TradeState :=
  let committed := Exits.commitEntry config s.toPassState req
  match committed.entry with
  | .committed .. => { s with toPassState := committed }
  | _ => { s with toPassState := committed }.abortPass

/-- The ledger is booked and `POSITION_OPEN` is set without an await in between. -/
def TradeState.bookEntry (req : OpenRequest) (quote : ExecutableQuote) (committed : Committed)
    (id : String) (copy : Candidate) (rest : List (String × Candidate)) (at' : Time) :
    TradeState :=
  match openPosition s.ledger (req.openArgs config quote.1 committed) with
  | .error _ => s.abortPass
  | .ok (ledger, _) =>
      { s with ledger := ledger }.writeBack id rest (transition copy .positionOpen at')

end Entry

/-! ## Exits -/

section Close

variable (config : BrokerConfig) (s : TradeState)

/-- `EXIT_PENDING` before a close. -/
def TradeState.beginExit (candidateId : Option String) (now : Time) : TradeState :=
  match candidateId.bind fun id => (s.pipeline.candidates.get? id).map (id, ·) with
  | none => s
  | some (id, candidate) =>
      if candidate.state ∈ [CandidateState.positionOpen, .positionPartial, .retryingExit] then
        (s.transitionCandidate id .exitPending now).1
      else s

/-- The candidate of a close, when it is in `EXIT_PENDING`. -/
def TradeState.pendingCandidate (closing : Closing) : Option String :=
  closing.candidateId.filter fun id =>
    (s.pipeline.candidates.get? id).any (·.state = .exitPending)

/-- `broker.close` has raised, and the exception ends the exit pass. -/
def TradeState.closeFailed (closing : Closing) (now : Time) : TradeState :=
  let candidateId := if closing.givenUp then closing.candidateId else s.pendingCandidate closing
  let next := match candidateId with
    | none => s
    | some id => (s.transitionCandidate id .retryingExit now).1
  { next with closing := none, pass := .idle }

/-- `position.status` is still open. -/
def stillOpen (ledger : LedgerState) (positionId : String) : Prop :=
  ∃ position ∈ ledger.positions.get? positionId, position.status = .opened

instance (ledger : LedgerState) (positionId : String) : Decidable (stillOpen ledger positionId) :=
  inferInstanceAs (Decidable (∃ position ∈ ledger.positions.get? positionId, _))

/-- `broker.close` has returned. A position that is given up counts as closed. -/
def TradeState.closeReturned (closing : Closing) (now : Time) : TradeState :=
  if closing.givenUp then
    match closing.candidateId with
    | none => { s with closing := none }
    | some id =>
        match s.transitionCandidate id .closed now with
        | (next, true) => { next with closing := none }
        | (next, false) => { next with closing := none, pass := .idle }
  else
    match s.pendingCandidate closing with
    | none => { s with closing := none }
    | some id =>
        let target :=
          if stillOpen s.ledger closing.positionId then CandidateState.positionPartial else .closed
        { (s.transitionCandidate id target now).1 with closing := none }

/-- `broker.close` up to the sell quote. -/
def TradeState.callClose (closing : Closing) (req : CloseRequest) (now : Time) : TradeState :=
  if req.tokenAmount ≤ 0 then s.closeFailed closing now
  else match repeatedFill s.ledger req.orderId .exit with
    | some fill =>
        match repeatedAnswer s.ledger req.tokenMint fill with
        | .error _ => s.closeFailed closing now
        | .ok _ => s.closeReturned closing now
    | none =>
        match s.ledger.openPositions.find? fun position => position.tokenMint = req.tokenMint with
        | none => s.closeFailed closing now
        | some position =>
            if req.tokenAmount > position.remainingTokenAmount then s.closeFailed closing now
            else { s with exit := .checked req }

def TradeState.commitExit (closing : Closing) (req : CloseRequest) (now : Time) : TradeState :=
  match commitPaperExit (req.exitArgs config) s.db with
  | (.error _, db) => { s with db := db, exit := .idle }.closeFailed closing now
  | (.ok committed, db) => { s with db := db, exit := .committed req committed }

def TradeState.bookExit (closing : Closing) (req : CloseRequest) (committed : Committed)
    (now : Time) : TradeState :=
  match closePosition config.zone.dateKey s.ledger (req.closeArgs config committed) with
  | .error _ => { s with exit := .idle }.closeFailed closing now
  | .ok (ledger, _) => { s with ledger := ledger, exit := .idle }.closeReturned closing now

end Close

/-! ## Steps -/

inductive TradeOp
  | startPass
  /-- the next candidate of the pass is decided without `_open_candidate` -/
  | writeBack (input : PassInput)
  /-- the next candidate is `ENTRY_PENDING`, the gate is open and the entry rules hold -/
  | openCandidate (at' now : Time) (sizing : Except RejectReason ℚ) (draw : EntryDraw)
  | commitEntry
  | bookEntry (at' : Time)
  /-- an awaited call of the pass has raised -/
  | abortPass
  /-- `_apply_event` meets a pool creation; it stores the new candidate even if it is known -/
  | discover (candidateId mint poolAddress : String) (detectedAt observedAt : Time) (persist : Bool)
  | touch (candidateId : String) (observedAt : Time)
  | listPositions
  | quotePosition (quote : ExecutableQuote)
  | quoteFailed
  /-- the quote of the next position has failed for too long -/
  | giveUp (now : Time)
  | mark (now : Time)
  | writeMarks
  /-- a listed position is evaluated after the marks -/
  | exitPosition (positionId : String) (price : ℚ) (now : Time) (momentumExit emergencyExit : Bool)
  | callClose (draw : CloseDraw) (now : Time)
  | commitExit (now : Time)
  | bookExit (now : Time)
  /-- a database error of `broker.close`, before or after the commit of its rows -/
  | abortExit (now : Time)
  /-- a write of `upsert_candidate` reaches the database -/
  | upserted (n : Nat)
  | restart (signals : List SignalRow) (now : Time)

/-- The parts of the configuration that a step reads. -/
structure TradeConfig where
  broker : BrokerConfig
  policy : ExitPolicy := {}
  machine : CandidateStateMachine := {}

section Step

variable (config : TradeConfig) (s : TradeState)

/-- A step of the exit loop that concerns no candidate. -/
def TradeState.exitLoop (op : PassOp) : TradeState :=
  if s.closing.isNone then { s with toPassState := s.toPassState.step config.broker config.policy op } else s

def TradeState.giveUp (now : Time) : TradeState :=
  match s.closing, s.exit, s.pass with
  | none, .idle, .quoting listed (id :: pending) quoted =>
      match s.ledger.positions.get? id with
      | none => s
      | some position =>
          let candidateId := (position.context.candidateId.filter (· ≠ "")).filter
            fun candidateId => s.pipeline.candidates.contains candidateId
          { s.beginExit candidateId now with
            pass := .quoting listed pending quoted
            closing := some ⟨id, "UNRECOVERABLE", 1, true, candidateId⟩ }
  | _, _, _ => s

def TradeState.exitPosition (positionId : String) (price : ℚ) (now : Time)
    (momentumExit emergencyExit : Bool) : TradeState :=
  match s.closing, s.exit, s.pass, s.ledger.positions.get? positionId with
  | none, .idle, .idle, some position =>
      let decision := evaluateExit config.policy position price now momentumExit emergencyExit
      let candidateId := position.context.candidateId.filter (· ≠ "")
      if decision.shouldExit then
        { s.beginExit candidateId now with
          closing := some
            ⟨positionId, decision.reason.value, decision.closeFraction, false, candidateId⟩ }
      else s
  | _, _, _, _ => s

/-- The request of a close: the amount is that of the position at the call. -/
def Closing.request (closing : Closing) (position : PositionRecord) (draw : CloseDraw) :
    CloseRequest :=
  { (ExitClose.mk position closing.code closing.fraction draw).request with
    orderId := some (exitOrder closing.positionId closing.code) }

/-- One step of either loop; a step that is not next in its loop does nothing. -/
def TradeState.step : TradeOp → TradeState
  | .startPass => match s.entry, s.pipeline.pass with
    | .idle, [] => { s with pipeline := { s.pipeline with pass := s.pipeline.candidates.entries } }
    | _, _ => s
  | .writeBack input => match s.entry, s.pipeline.pass with
    | .idle, (id, copy) :: rest =>
        if copy.state = .entryPending ∧ input.gateEnabled ∧ input.entryRules ∧
            input.entryHandler.isSome then s
        else s.writeBack id rest (passResult config.machine copy input)
    | _, _ => s
  | .openCandidate at' now sizing draw => match s.entry, s.pipeline.pass with
    | .idle, (id, copy) :: rest =>
        if copy.state = .entryPending then
          s.openCandidate config.broker id copy rest at' now sizing draw
        else s
    | _, _ => s
  | .commitEntry => match s.entry with
    | .checked req => s.commitEntry config.broker req
    | _ => s
  | .bookEntry at' => match s.entry, s.pipeline.pass with
    | .committed req quote committed, (id, copy) :: rest =>
        s.bookEntry config.broker req quote committed id copy rest at'
    | _, _ => s
  | .abortPass => s.abortPass
  | .discover candidateId mint poolAddress detectedAt observedAt persist =>
      let candidate : Candidate :=
        { candidateId := candidateId, mint := mint, poolAddress := poolAddress
          detectedAt := detectedAt, updatedAt := observedAt }
      { s with
        pipeline := { s.pipeline with
          candidates := s.pipeline.candidates.setDefault candidateId candidate }
        upserts := if persist then s.upserts ++ [candidate] else s.upserts }
  | .touch candidateId observedAt => match s.pipeline.candidates.get? candidateId with
    | none => s
    | some candidate => { s with pipeline := { s.pipeline with
        candidates := s.pipeline.candidates.set candidateId
          { candidate with updatedAt := observedAt } } }
  | .listPositions => s.exitLoop config .listPositions
  | .quotePosition quote => s.exitLoop config (.quotePosition quote)
  | .quoteFailed => s.exitLoop config (.quoteFailed none)
  | .giveUp now => s.giveUp now
  | .mark now => s.exitLoop config (.mark now)
  | .writeMarks => s.exitLoop config .writeMarks
  | .exitPosition positionId price now momentumExit emergencyExit =>
      s.exitPosition config positionId price now momentumExit emergencyExit
  | .callClose draw now => match s.closing, s.exit with
    | some closing, .idle => match s.ledger.positions.get? closing.positionId with
      | none => s
      | some position => s.callClose closing (closing.request position draw) now
    | _, _ => s
  | .commitExit now => match s.closing, s.exit with
    | some closing, .checked req => s.commitExit config.broker closing req now
    | _, _ => s
  | .bookExit now => match s.closing, s.exit with
    | some closing, .committed req committed => s.bookExit config.broker closing req committed now
    | _, _ => s
  | .abortExit now => match s.closing with
    | some closing => { s with exit := .idle }.closeFailed closing now
    | none => s
  | .upserted n => match s.upserts[n]? with
    | none => s
    | some candidate =>
        { s with
          stored := s.stored.set candidate.candidateId candidate
          upserts := s.upserts.eraseIdx n }
  | .restart signals now => match startLedger s.db signals config.broker.zone now with
    | none => s
    | some ledger =>
        { s with
          ledger := ledger, entry := .idle, exit := .idle, pass := .idle, closing := none
          upserts := [], pipeline := ⟨s.stored, []⟩ }

end Step

end SniperBot.Runtime
