import SniperBot.Exits.Closing

/-!
# Marking passes and concurrent entries

`evaluate_and_close_exits` (`runtime.py`) lists the open positions, awaits a sell quote for each of
them, marks the ledger if every listed position has one, and awaits `update_paper_marks`. The
candidate loop runs at each of these awaits: its entries are checked, committed and booked between
the steps of a pass. `PassState` holds how far either loop is, and `PassState.step` performs what
lies between two awaits.

The marks are written for the open positions of the ledger at the mark, the quotes are those of the
list. `late_entry_booked_as_loss` is a run in which an entry is booked in between.
-/

namespace SniperBot.Exits

open Basis Ledger Risk Paper

/-! ## States -/

/-- An entry of the candidate loop: `PaperBroker.open` awaits the buy quote and the commit. -/
inductive EntryPhase
  | idle
  /-- the risk check has allowed the entry -/
  | checked (req : OpenRequest)
  /-- the rows are committed and the ledger is not booked yet -/
  | committed (req : OpenRequest) (quote : ExecutableQuote) (committed : Committed)

/-- A close of the exit loop: `PaperBroker.close` awaits its sell quote and the commit. -/
inductive ExitPhase
  | idle
  | checked (req : CloseRequest)
  | committed (req : CloseRequest) (committed : Committed)

/-- `executable_values` and `prices` of a pass. -/
structure Quoted where
  values : Dict String ℚ
  prices : Dict String ℚ

inductive PassPhase
  | idle
  /-- so many positions are listed, and the quotes of the pending ones are awaited -/
  | quoting (listed : Nat) (pending : List String) (quoted : Quoted)
  /-- the ledger is marked, and the write of its snapshot is awaited -/
  | writing (snapshot : LedgerState) (values : Dict String ℚ) (now : Time)

structure PassState extends BrokerState where
  entry : EntryPhase
  exit : ExitPhase
  pass : PassPhase

def PassState.init (config : BrokerConfig) (startingEquity : ℚ) (now : Time) : PassState where
  toBrokerState := BrokerState.init config startingEquity now
  entry := .idle
  exit := .idle
  pass := .idle

/-! ## Entries -/

section Entry

variable (config : BrokerConfig) (s : PassState)

/-- `open` up to the buy quote. -/
def checkEntry (req : OpenRequest) : PassState :=
  match repeatedFill s.ledger req.orderId .entry with
  | some _ => s
  | none =>
      match evaluateEntry config.risk config.zone req.now s.ledger req.usdcAmount req.tokenMint with
      | (.ok .allow, ledger) => { s with ledger := ledger, entry := .checked req }
      | (.ok (.block _), ledger) => { s with ledger := ledger }
      | (.error _, ledger) => { s with ledger := ledger }

/-- The commit of a checked entry. -/
def commitEntry (req : OpenRequest) : PassState :=
  match req.quote, req.candidateId.filter (· ≠ ""), req.poolAddress.filter (· ≠ "") with
  | some quote, some candidateId, some poolAddress =>
      if config.strategyVersion = "" then { s with entry := .idle }
      else match commitPaperEntry (req.entryArgs config quote.1 candidateId poolAddress) s.db with
        | (.error _, db) => { s with db := db, entry := .idle }
        | (.ok committed, db) => { s with db := db, entry := .committed req quote committed }
  | _, _, _ => { s with entry := .idle }

def bookEntry (req : OpenRequest) (quote : ExecutableQuote) (committed : Committed) : PassState :=
  match openPosition s.ledger (req.openArgs config quote.1 committed) with
  | .error _ => { s with entry := .idle }
  | .ok (ledger, _) => { s with ledger := ledger, entry := .idle }

end Entry

/-! ## Closes -/

section Close

variable (config : BrokerConfig) (s : PassState)

/-- `close` up to the sell quote; an exception ends the pass. -/
def checkExit (req : CloseRequest) : PassState :=
  if req.tokenAmount ≤ 0 then { s with pass := .idle }
  else match repeatedFill s.ledger req.orderId .exit with
    | some _ => s
    | none =>
        match s.ledger.openPositions.find? fun position => position.tokenMint = req.tokenMint with
        | none => { s with pass := .idle }
        | some position =>
            if req.tokenAmount > position.remainingTokenAmount then { s with pass := .idle }
            else { s with exit := .checked req }

def commitExit (req : CloseRequest) : PassState :=
  match commitPaperExit (req.exitArgs config) s.db with
  | (.error _, db) => { s with db := db, exit := .idle, pass := .idle }
  | (.ok committed, db) => { s with db := db, exit := .committed req committed }

def bookExit (req : CloseRequest) (committed : Committed) : PassState :=
  match closePosition config.zone.dateKey s.ledger (req.closeArgs config committed) with
  | .error _ => { s with exit := .idle, pass := .idle }
  | .ok (ledger, _) => { s with ledger := ledger, exit := .idle }

end Close

/-! ## Quotes and marks -/

section Pass

variable (config : BrokerConfig) (s : PassState)

/-- The value and the price of a position that has a quote. -/
def Quoted.add (quoted : Quoted) (position : PositionRecord) (quote : QuoteResponse) : Quoted where
  values := quoted.values.set position.positionId quote.executableUsd
  prices := quoted.prices.set position.tokenMint
    (if position.remainingTokenAmount > 0 then
      quote.executableUsd / position.remainingTokenAmount
    else 0)

/-- `if prices and len(prices) == len(positions)` -/
def Quoted.Complete (quoted : Quoted) (listed : Nat) : Prop :=
  quoted.prices.entries.length ≠ 0 ∧ quoted.prices.entries.length = listed

instance (quoted : Quoted) (listed : Nat) : Decidable (quoted.Complete listed) :=
  inferInstanceAs (Decidable (_ ∧ _))

def listPositions : PassState :=
  let positions := s.ledger.openPositions
  { s with pass := .quoting positions.length (positions.map (·.positionId)) ⟨.empty, .empty⟩ }

def quotePosition (listed : Nat) (id : String) (pending : List String) (quoted : Quoted)
    (quote : QuoteResponse) : PassState :=
  match s.ledger.positions.get? id with
  | none => s
  | some position => { s with pass := .quoting listed pending (quoted.add position quote) }

/-- The quote of the next position has failed; after too many failures the position is given up. -/
def quoteFailed (listed : Nat) (id : String) (pending : List String) (quoted : Quoted)
    (giveUp : Option CloseDraw) : PassState :=
  let next := { s with pass := .quoting listed pending quoted }
  match giveUp.bind fun draw => (ExitOp.giveUp id draw).close {} s.ledger with
  | none => next
  | some close => checkExit next close.request

/-- The mark; the positions and the totals for the write are those of the marked ledger. -/
def markPass (listed : Nat) (quoted : Quoted) (now : Time) : PassState :=
  if quoted.Complete listed then
    let ledger := markToMarket config.zone.dateKey s.ledger quoted.prices now
    { s with ledger := ledger, pass := .writing ledger quoted.values now }
  else { s with pass := .idle }

def writeMarks (snapshot : LedgerState) (values : Dict String ℚ) (now : Time) : PassState :=
  { s with
    db := (updatePaperMarks config.ownedRun values snapshot now s.db).2
    pass := .idle }

end Pass

/-! ## Steps -/

inductive PassOp
  | checkEntry (req : OpenRequest)
  | commitEntry
  | bookEntry
  | listPositions
  | quotePosition (quote : ExecutableQuote)
  | quoteFailed (giveUp : Option CloseDraw)
  | mark (now : Time)
  | writeMarks
  /-- a listed position is evaluated after the marks -/
  | exitPosition (positionId : String) (price : ℚ) (now : Time) (momentumExit emergencyExit : Bool)
      (draw : CloseDraw)
  | commitExit
  | bookExit

/-- One step of either loop; a step that is not next in its loop does nothing. -/
def PassState.step (config : BrokerConfig) (policy : ExitPolicy) (s : PassState) :
    PassOp → PassState
  | .checkEntry req => match s.entry with
    | .idle => Exits.checkEntry config s req
    | _ => s
  | .commitEntry => match s.entry with
    | .checked req => Exits.commitEntry config s req
    | _ => s
  | .bookEntry => match s.entry with
    | .committed req quote committed => Exits.bookEntry config s req quote committed
    | _ => s
  | .listPositions => match s.exit, s.pass with
    | .idle, .idle => Exits.listPositions s
    | _, _ => s
  | .quotePosition quote => match s.exit, s.pass with
    | .idle, .quoting listed (id :: pending) quoted =>
        Exits.quotePosition s listed id pending quoted quote.1
    | _, _ => s
  | .quoteFailed giveUp => match s.exit, s.pass with
    | .idle, .quoting listed (id :: pending) quoted =>
        Exits.quoteFailed s listed id pending quoted giveUp
    | _, _ => s
  | .mark now => match s.exit, s.pass with
    | .idle, .quoting listed [] quoted => markPass config s listed quoted now
    | _, _ => s
  | .writeMarks => match s.pass with
    | .writing snapshot values now => Exits.writeMarks config s snapshot values now
    | _ => s
  | .exitPosition positionId price now momentumExit emergencyExit draw =>
    match s.exit, s.pass with
    | .idle, .idle =>
        match (ExitOp.exit positionId price now momentumExit emergencyExit draw).close policy
          s.ledger with
        | none => s
        | some close => checkExit s close.request
    | _, _ => s
  | .commitExit => match s.exit with
    | .checked req => Exits.commitExit config s req
    | _ => s
  | .bookExit => match s.exit with
    | .committed req committed => Exits.bookExit config s req committed
    | _ => s

section Steps

variable {config : BrokerConfig} {policy : ExitPolicy} {s : PassState}

/-- Without a step in between, an entry is a call of the broker. -/
theorem entry_steps (hidle : s.entry = .idle) (req : OpenRequest) :
    (exec (PassState.step config policy) s [.checkEntry req, .commitEntry,
      .bookEntry]).toBrokerState = (brokerOpen config s.toBrokerState req).2 := by
  simp only [exec_cons, exec_nil, PassState.step, hidle, Exits.checkEntry, brokerOpen]
  cases repeatedFill s.ledger req.orderId .entry with
  | some fill => simp only [hidle]
  | none =>
      dsimp only
      rcases evaluateEntry config.risk config.zone req.now s.ledger req.usdcAmount req.tokenMint
        with ⟨_ | _ | _, ledger⟩
      · rfl
      · -- the entry is allowed
        cases hquote : req.quote with
        | none => simp only [Exits.commitEntry, hquote]
        | some quote =>
            simp only [Exits.commitEntry, hquote, fillEntry]
            cases req.candidateId.filter (· ≠ "") with
            | none => rfl
            | some candidateId =>
                cases req.poolAddress.filter (· ≠ "") with
                | none => rfl
                | some poolAddress =>
                    by_cases hversion : config.strategyVersion = ""
                    · simp only [hversion, if_true]
                    · simp only [hversion, if_false]
                      rcases commitPaperEntry (req.entryArgs config quote.1 candidateId poolAddress)
                        s.db with ⟨_ | committed, db⟩
                      · rfl
                      · unfold Exits.bookEntry
                        dsimp only
                        rcases openPosition ledger (req.openArgs config quote.1 committed) with
                          _ | ⟨opened, position⟩
                        · rfl
                        · rfl
      · rfl

theorem exit_steps (hidle : s.exit = .idle) (req : CloseRequest) :
    (exec (PassState.step config policy) (checkExit s req) [.commitExit,
      .bookExit]).toBrokerState = (brokerClose config s.toBrokerState req).2 := by
  simp only [exec_cons, exec_nil, PassState.step, Exits.checkExit, brokerClose]
  by_cases hamount : req.tokenAmount ≤ 0
  · simp only [hamount, if_true, hidle]
  · simp only [hamount, if_false]
    cases repeatedFill s.ledger req.orderId .exit with
    | some fill => simp only [hidle]
    | none =>
        cases s.ledger.openPositions.find? fun position => position.tokenMint = req.tokenMint with
        | none => simp only [hidle]
        | some position =>
            by_cases hexceeds : req.tokenAmount > position.remainingTokenAmount
            · simp only [hexceeds, if_true, hidle]
            · simp only [hexceeds, if_false, Exits.commitExit, fillExit]
              rcases commitPaperExit (req.exitArgs config) s.db with ⟨_ | committed, db⟩
              · rfl
              · unfold Exits.bookExit
                dsimp only
                rcases closePosition config.zone.dateKey s.ledger (req.closeArgs config committed)
                  with _ | ⟨ledger, closed⟩
                · rfl
                · rfl

end Steps

/-! ## What the write should leave -/

/-- The unrealized gain of an open row. -/
def liveGain (_ : String) (row : PositionRow) : ℚ :=
  if row.status.Live then row.unrealizedPnl else 0

/-- The account row shows the sum over the open rows. -/
def RowsAddUp (db : PaperDb) : Prop :=
  ∃ account, db.account = some account ∧
    account.unrealizedPnl = Dict.total liveGain db.positions

/-- An open row without a quote of the pass shows no gain or loss. -/
def UnquotedRowsKept (db : PaperDb) (values : Dict String ℚ) : Prop :=
  ∀ id row, db.positions.get? id = some row → row.status.Live → values.get? id = none →
    row.unrealizedPnl = 0

/-! ## Conditions on the steps -/

/-- The exit loop's decision that a step acts on. -/
def PassOp.exitOp : PassOp → Option ExitOp
  | .checkEntry req => some (.openPosition req)
  | .exitPosition positionId price now momentumExit emergencyExit draw =>
      some (.exit positionId price now momentumExit emergencyExit draw)
  | _ => none

/-- Entries have their ids, and partial closes find a quote. -/
def Regular (policy : ExitPolicy) (s : PassState) (op : PassOp) : Prop :=
  ∀ exitOp ∈ op.exitOp, EntryIds s.toBrokerState exitOp ∧
    PartsQuoted policy s.toBrokerState exitOp

/-- When the ledger is marked, every open position has a quote of the pass: no entry was booked
since the positions were listed. -/
def AllQuoted (s : PassState) : PassOp → Prop
  | .mark _ => match s.pass with
    | .quoting listed _ quoted => quoted.Complete listed →
        ∀ p ∈ s.ledger.openPositions, (quoted.values.get? p.positionId).isSome
    | _ => True
  | _ => True

instance (policy : ExitPolicy) (s : PassState) (op : PassOp) : Decidable (Regular policy s op) :=
  inferInstanceAs (Decidable (∀ exitOp ∈ op.exitOp, _ ∧ _))

instance (s : PassState) : (op : PassOp) → Decidable (AllQuoted s op)
  | .mark _ => match h : s.pass with
    | .quoting listed _ quoted => decidable_of_iff (quoted.Complete listed →
        ∀ p ∈ s.ledger.openPositions, (quoted.values.get? p.positionId).isSome)
        (by simp only [AllQuoted, h])
    | .idle | .writing .. => isTrue (by simp only [AllQuoted, h])
  | .checkEntry _ | .commitEntry | .bookEntry | .listPositions | .quotePosition _
  | .quoteFailed _ | .writeMarks | .exitPosition .. | .commitExit | .bookExit => isTrue trivial

/-! ## An entry between the list and the mark -/

def secondOpen : OpenRequest :=
  { sampleOpen with
    tokenMint := "OTHER", orderId := some "entry:second", candidateId := some "second"
    poolAddress := some "pool-second", positionId := "second", fillId := "fill-second"
    quoteId := "quote-second", now := seconds 2, filledAt := seconds 2 }

/-- The quote of the sample position is awaited while a second entry is made. -/
def lateEntry : List PassOp :=
  [.checkEntry sampleOpen, .commitEntry, .bookEntry, .listPositions, .checkEntry secondOpen,
    .commitEntry, .bookEntry,
    .quotePosition (dollarsOf 30 thirty_pos), .mark (seconds 2),
    .writeMarks]

/-- The second position has its whole cost of twenty dollars booked as a loss, which the account
row does not show. -/
theorem late_entry_booked_as_loss :
    Along (Regular {}) (PassState.step sampleBroker {}) (PassState.init sampleBroker 500 0)
      lateEntry ∧
    (exec (PassState.step sampleBroker {}) (PassState.init sampleBroker 500 0)
      lateEntry).db.account.map (·.unrealizedPnl) = some 10 ∧
    ((exec (PassState.step sampleBroker {}) (PassState.init sampleBroker 500 0)
      lateEntry).db.positions.get? "second").map (fun row => (row.status, row.remainingCostUsd,
        row.unrealizedPnl)) = some (.opened, 20, -20) ∧
    ¬ RowsAddUp (exec (PassState.step sampleBroker {}) (PassState.init sampleBroker 500 0)
      lateEntry).db := by
  have haccount : (exec (PassState.step sampleBroker {}) (PassState.init sampleBroker 500 0)
      lateEntry).db.account.map (·.unrealizedPnl) = some 10 := by decide +kernel
  refine ⟨by decide +kernel, haccount, by decide +kernel, ?_⟩
  rintro ⟨account, hstored, htotal⟩
  rw [hstored, Option.map_some, Option.some.injEq, htotal] at haccount
  revert haccount
  decide +kernel

end SniperBot.Exits
