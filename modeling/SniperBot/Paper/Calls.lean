import SniperBot.Paper.Broker

/-!
# How far a call of the broker gets

A call of the broker stops before its commit, raises after it, or books the ledger
(`brokerOpen_cases`, `brokerClose_cases`). A commit can also succeed while its caller sees an error
or is cancelled: the rows are written, the ledger is not. `BrokerCall.cutShort` is the state that
such a call leaves.
-/

namespace SniperBot.Paper

open Basis Ledger Risk

/-! ## Calls -/

inductive BrokerCall
  | openPosition (req : OpenRequest)
  | closePosition (req : CloseRequest)

namespace BrokerCall

/-- The order id of the call. -/
def order : BrokerCall → String
  | .openPosition req => req.order
  | .closePosition req => req.order

def side : BrokerCall → Side
  | .openPosition _ => .buy
  | .closePosition _ => .sell

def perform (config : BrokerConfig) (s : BrokerState) : BrokerCall → Outcome
  | .openPosition req => brokerOpen config s req
  | .closePosition req => brokerClose config s req

end BrokerCall

/-- The ledger of an opening call when it reaches the database: the risk check is done. -/
def checkedLedger (config : BrokerConfig) (ledger : LedgerState) (req : OpenRequest) :
    LedgerState :=
  match repeatedFill ledger req.orderId .entry with
  | some _ => ledger
  | none =>
      (evaluateEntry config.risk config.zone req.now ledger req.usdcAmount req.tokenMint).2

/-- The state that a call leaves when its caller is stopped before the ledger is booked. -/
def BrokerCall.cutShort (config : BrokerConfig) (s : BrokerState) : BrokerCall → BrokerState
  | .openPosition req => ⟨checkedLedger config s.ledger req, (brokerOpen config s req).2.db⟩
  | .closePosition req => ⟨s.ledger, (brokerClose config s req).2.db⟩

inductive RetryOp
  | call (call : BrokerCall)
  | cut (call : BrokerCall)
  | mark (quotes : Dict String ExecutableQuote) (now : Time)

def BrokerState.attempt (config : BrokerConfig) (s : BrokerState) : RetryOp → BrokerState
  | .call call => (call.perform config s).2
  | .cut call => call.cutShort config s
  | .mark quotes now => markUpdate config s quotes now

/-! ## What a commit answers -/

section Commits

variable {db next : PaperDb} {committed : Committed}

/-- The answer names the stored order and its fill row. -/
structure Recorded (db : PaperDb) (orderId : String) (committed : Committed) : Prop where
  order : ∃ order, db.orders.get? orderId = some order ∧
    order.positionId = some committed.positionId
  fill : ∃ row, db.fills.get? committed.fillId = some row ∧ row.orderId = orderId

theorem existingOrder_ok {orderId : String} {e : PaperError}
    (h : db.existingOrder orderId e = some (.ok committed)) : Recorded db orderId committed := by
  unfold PaperDb.existingOrder at h
  obtain ⟨order, horder, hanswer⟩ := Option.map_eq_some_iff.mp h
  split at hanswer
  · rename_i fill positionId hfill hposition
    cases hanswer
    have hstored := Dict.mem_entries.mp (List.mem_of_find?_eq_some hfill)
    have hown := List.find?_some hfill
    exact ⟨⟨order, horder, hposition⟩, fill.2, hstored, of_decide_eq_true hown⟩
  · cases hanswer

theorem commitPaperEntry_ok {args : EntryArgs}
    (h : commitPaperEntry args db = (.ok committed, next)) :
    (next = db ∧ Recorded db args.orderId committed) ∨
    ∃ account, EntryCase db args account ∧ next = db.entered account args ∧
      committed = ⟨args.positionId, args.fillId, args.quoteId, args.filledAt⟩ := by
  cases hexisting : db.existingOrder args.orderId .entryIncomplete with
  | some answer =>
      left
      simp only [commitPaperEntry, transaction, hexisting] at h
      cases answer with
      | error e => cases h
      | ok value =>
          cases h
          exact ⟨rfl, existingOrder_ok hexisting⟩
  | none =>
      right
      rw [commitPaperEntry_new (existingOrder_eq_none.mp hexisting)] at h
      rcases lockedEntry_cases args db with ⟨e, he⟩ | ⟨account, hcase, heq⟩
      · rw [transaction_of_error he] at h
        cases h
      · rw [transaction_of_ok heq] at h
        cases h
        exact ⟨account, hcase, rfl, rfl⟩

theorem commitPaperExit_ok {args : ExitArgs}
    (h : commitPaperExit args db = (.ok committed, next)) :
    (next = db ∧ Recorded db args.orderId committed) ∨
    ∃ account id row, ExitCase db args account id row ∧ next = db.exited account args id row ∧
      committed =
        ⟨id, args.fillId, args.storedQuoteId.getD "unrecoverable", args.filledAt⟩ := by
  cases hexisting : db.existingOrder args.orderId .exitIncomplete with
  | some answer =>
      left
      simp only [commitPaperExit, transaction, hexisting] at h
      cases answer with
      | error e => cases h
      | ok value =>
          cases h
          exact ⟨rfl, existingOrder_ok hexisting⟩
  | none =>
      right
      rw [commitPaperExit_new (existingOrder_eq_none.mp hexisting)] at h
      rcases lockedExit_cases args db with ⟨e, he⟩ | ⟨account, id, row, hcase, heq⟩
      · rw [transaction_of_error he] at h
        cases h
      · rw [transaction_of_ok heq] at h
        cases h
        exact ⟨account, id, row, hcase, rfl, rfl⟩

end Commits

/-! ## How far a call gets -/

section Cases

variable {config : BrokerConfig} {s : BrokerState}

/-- An opening call gets as far as the ledger, with the answer of its commit. -/
structure OpenReached (config : BrokerConfig) (s : BrokerState) (req : OpenRequest)
    (quote : ExecutableQuote) (committed : Committed) (db : PaperDb) : Prop where
  new : repeatedFill s.ledger req.orderId .entry = none
  allowed : (evaluateEntry config.risk config.zone req.now s.ledger req.usdcAmount
    req.tokenMint).1 = .ok .allow
  quoted : req.quote = some quote
  commit : ∃ candidateId poolAddress,
    commitPaperEntry (req.entryArgs config quote.1 candidateId poolAddress) s.db =
      (.ok committed, db)

theorem commitPaperEntry_error {args : EntryArgs} {db next : PaperDb} {e : PaperError}
    (h : commitPaperEntry args db = (.error e, next)) : next = db := by
  have hsame : (commitPaperEntry args db).2 = db := transaction_error (congrArg Prod.fst h)
  rw [h] at hsame
  exact hsame

theorem commitPaperExit_error {args : ExitArgs} {db next : PaperDb} {e : PaperError}
    (h : commitPaperExit args db = (.error e, next)) : next = db := by
  have hsame : (commitPaperExit args db).2 = db := transaction_error (congrArg Prod.fst h)
  rw [h] at hsame
  exact hsame

/-- A call that writes no row leaves the checked ledger and answers only a repetition. -/
structure OpenStopped (config : BrokerConfig) (s : BrokerState) (req : OpenRequest) : Prop where
  state : (brokerOpen config s req).2 = ⟨checkedLedger config s.ledger req, s.db⟩
  answer : ∀ result, (brokerOpen config s req).1 = .ok result →
    repeatedFill s.ledger req.orderId .entry ≠ none

/-- After its commit a call raises and leaves the ledger, or books it. -/
inductive OpenBooked (config : BrokerConfig) (s : BrokerState) (req : OpenRequest)
    (quote : ExecutableQuote) (committed : Committed) (db : PaperDb) : Prop
  | raised (e : BrokerError)
      (outcome : brokerOpen config s req = (.error e, ⟨checkedLedger config s.ledger req, db⟩))
  | booked (ledger : LedgerState) (position : PositionRecord) (result : ExecutionResult)
      (opened : openPosition (checkedLedger config s.ledger req)
        (req.openArgs config quote.1 committed) = .ok (ledger, position))
      (outcome : brokerOpen config s req = (.ok result, ⟨ledger, db⟩))

theorem OpenStopped.of_error {req : OpenRequest} {e : BrokerError}
    (h : brokerOpen config s req = (.error e, ⟨checkedLedger config s.ledger req, s.db⟩)) :
    OpenStopped config s req := by
  refine ⟨by rw [h], fun _ hok => ?_⟩
  rw [h] at hok
  cases hok

/-- From the buy quote on. -/
theorem fillEntry_cases {req : OpenRequest} {quote : ExecutableQuote}
    (hopen : brokerOpen config s req =
      fillEntry config ⟨checkedLedger config s.ledger req, s.db⟩ req quote.1)
    (hnew : repeatedFill s.ledger req.orderId .entry = none)
    (hallowed : (evaluateEntry config.risk config.zone req.now s.ledger req.usdcAmount
      req.tokenMint).1 = .ok .allow)
    (hquote : req.quote = some quote) :
    OpenStopped config s req ∨
    ∃ quote committed db, OpenReached config s req quote committed db ∧
      OpenBooked config s req quote committed db := by
  unfold fillEntry at hopen
  split at hopen
  · rename_i candidateId poolAddress _ _
    split at hopen
    · exact Or.inl (.of_error hopen)
    · split at hopen
      · rename_i e db hcommit
        cases commitPaperEntry_error hcommit
        exact Or.inl (.of_error hopen)
      · rename_i committed db hcommit
        refine Or.inr ⟨quote, committed, db, ⟨hnew, hallowed, hquote, _, _, hcommit⟩, ?_⟩
        split at hopen
        · exact .raised _ hopen
        · rename_i ledger position hopened
          exact .booked ledger position _ hopened hopen
  · exact Or.inl (.of_error hopen)

theorem brokerOpen_cases (config : BrokerConfig) (s : BrokerState) (req : OpenRequest) :
    OpenStopped config s req ∨
    ∃ quote committed db, OpenReached config s req quote committed db ∧
      OpenBooked config s req quote committed db := by
  cases hnew : repeatedFill s.ledger req.orderId .entry with
  | some fill =>
      refine Or.inl ⟨?_, fun _ _ => by simp [hnew]⟩
      simp only [brokerOpen, checkedLedger, hnew]
  | none =>
      have hchecked : checkedLedger config s.ledger req = (evaluateEntry config.risk config.zone
          req.now s.ledger req.usdcAmount req.tokenMint).2 := by
        simp only [checkedLedger, hnew]
      have hopen := brokerOpen.eq_def config s req
      rw [hnew] at hopen
      dsimp only at hopen
      split at hopen
      · rename_i reason ledger heval
        rw [heval] at hchecked
        subst hchecked
        exact Or.inl (.of_error hopen)
      · rename_i reason ledger heval
        rw [heval] at hchecked
        subst hchecked
        exact Or.inl (.of_error hopen)
      · rename_i ledger heval
        have hallowed := congrArg Prod.fst heval
        rw [heval] at hchecked
        subst hchecked
        split at hopen
        · exact Or.inl (.of_error hopen)
        · rename_i quote hquote
          exact fillEntry_cases hopen hnew hallowed hquote

/-- A closing call gets as far as the ledger. -/
structure CloseReached (config : BrokerConfig) (s : BrokerState) (req : CloseRequest)
    (committed : Committed) (db : PaperDb) : Prop where
  new : repeatedFill s.ledger req.orderId .exit = none
  amount : 0 < req.tokenAmount
  found : ∃ p ∈ s.ledger.openPositions, p.tokenMint = req.tokenMint ∧
    req.tokenAmount ≤ p.remainingTokenAmount
  commit : commitPaperExit (req.exitArgs config) s.db = (.ok committed, db)

structure CloseStopped (config : BrokerConfig) (s : BrokerState) (req : CloseRequest) : Prop where
  state : (brokerClose config s req).2 = s
  answer : ∀ result, (brokerClose config s req).1 = .ok result →
    repeatedFill s.ledger req.orderId .exit ≠ none

inductive CloseBooked (config : BrokerConfig) (s : BrokerState) (req : CloseRequest)
    (committed : Committed) (db : PaperDb) : Prop
  | raised (e : BrokerError) (outcome : brokerClose config s req = (.error e, ⟨s.ledger, db⟩))
  | booked (ledger : LedgerState) (position : PositionRecord) (result : ExecutionResult)
      (closed : closePosition config.zone.dateKey s.ledger (req.closeArgs config committed) =
        .ok (ledger, position))
      (outcome : brokerClose config s req = (.ok result, ⟨ledger, db⟩))

theorem CloseStopped.of_error {req : CloseRequest} {e : BrokerError}
    (h : brokerClose config s req = (.error e, s)) : CloseStopped config s req := by
  refine ⟨by rw [h], fun _ hok => ?_⟩
  rw [h] at hok
  cases hok

theorem brokerClose_cases (config : BrokerConfig) (s : BrokerState) (req : CloseRequest) :
    CloseStopped config s req ∨
    ∃ committed db, CloseReached config s req committed db ∧
      CloseBooked config s req committed db := by
  have hclose := brokerClose.eq_def config s req
  split at hclose
  · exact Or.inl (.of_error hclose)
  · rename_i hamount
    cases hnew : repeatedFill s.ledger req.orderId .exit with
    | some fill =>
        rw [hnew] at hclose
        exact Or.inl ⟨congrArg Prod.snd hclose, fun _ _ => by simp [hnew]⟩
    | none =>
        rw [hnew] at hclose
        dsimp only at hclose
        split at hclose
        · exact Or.inl (.of_error hclose)
        · rename_i p hfound
          have hmint := List.find?_some hfound
          split at hclose
          · exact Or.inl (.of_error hclose)
          · rename_i hexceeds
            unfold fillExit at hclose
            split at hclose
            · rename_i e db hcommit
              cases commitPaperExit_error hcommit
              exact Or.inl (.of_error hclose)
            · rename_i committed db hcommit
              refine Or.inr ⟨committed, db, ⟨hnew, not_le.mp hamount,
                ⟨p, List.mem_of_find?_eq_some hfound, of_decide_eq_true hmint,
                  not_lt.mp hexceeds⟩, hcommit⟩, ?_⟩
              split at hclose
              · exact .raised _ hclose
              · rename_i ledger position hclosed
                exact .booked ledger position _ hclosed hclose

end Cases

end SniperBot.Paper
