import SniperBot.Exits.Passes
import SniperBot.Paper.Restore

/-!
# Halts of the runtime

Who writes the halt of the ledger: the operator (`halt` and `resume` of `runtime.py`), the exit loop
after its marks, and the risk check of an entry. All of them share the one string `halt_reason`.
`persist_risk_state` copies the controls to the account row some time after they were read, and a
new process takes them from there.

`ControlState.step` performs one of these, or a step of the candidate and the exit loop.
-/

namespace SniperBot.Runtime

open Basis Ledger Risk Paper Exits

/-! ## The controls -/

/-- `set_halt` -/
def setHalt (s : LedgerState) (reason : String) : LedgerState :=
  { s with haltReason := some ("manual:" ++ reason) }

/-- `clear_halt` -/
def clearHalt (s : LedgerState) (force : Bool) : Bool × LedgerState :=
  if (∃ reason ∈ s.haltReason, textStartsWith "hard:" reason ∨ textStartsWith "daily:" reason) ∧
      force = false then
    (false, s)
  else (true, { s with haltReason := none })

structure Controls where
  haltReason : Option String
  pauseUntil : Option Time
  dailyHaltDate : Option String

def controls (s : LedgerState) : Controls := ⟨s.haltReason, s.pauseUntil, s.dailyHaltDate⟩

/-- `persist_risk_state` -/
def persistRiskState (ownedRun : Option String) (c : Controls) (updatedAt : Time) :
    PaperDb → Except PaperError Unit × PaperDb :=
  transaction fun db =>
    match db.account with
    | none => (.error .marksAccount, db)
    | some account =>
        match runtimeOwnerError db.activeRun ownedRun with
        | some e => (.error e, db)
        | none =>
            let stored : AccountRow :=
              { account with
                haltReason := c.haltReason, pauseUntil := c.pauseUntil
                dailyHaltDate := c.dailyHaltDate, updatedAt := updatedAt }
            (.ok (), { db with account := some stored })

/-! ## The exit loop -/

/-- `daily_equity_baseline.setdefault` -/
def withBaseline (s : LedgerState) (today : String) : LedgerState :=
  { s with dailyEquityBaseline := s.dailyEquityBaseline.setDefault today s.equityUsd }

/-- `drawdown_exceeded` of the runtime, which has no absolute value. -/
def drawdownReached (s : LedgerState) (limitPct : ℚ) : Prop :=
  0 < s.peakEquityUsd ∧ limitPct ≤ (s.peakEquityUsd - s.equityUsd) / s.peakEquityUsd * 100

instance (s : LedgerState) (limitPct : ℚ) : Decidable (drawdownReached s limitPct) :=
  inferInstanceAs (Decidable (_ ∧ _))

/-- The halts of the exit loop: losses are those of the present day, the date of the halt is that
of the pass. -/
def exitHalts (config : BrokerConfig) (s : LedgerState) (passNow now : Time) : LedgerState :=
  let today := config.zone.dateKey now
  let based := withBaseline s today
  if drawdownReached based config.risk.allTimeDrawdownLimitPct then
    setHardHalt based "ALL_TIME_DRAWDOWN_LIMIT"
  else if dailyLossExceeded based today config.risk.dailyLossLimitUsdc then
    setDailyHalt based (config.zone.dateKey passNow) "DAILY_LOSS_LIMIT"
  else based

/-- The exit loop persists the controls when one of its halts applies. -/
def exitPersists (config : BrokerConfig) (s : LedgerState) (now : Time) : Prop :=
  let based := withBaseline s (config.zone.dateKey now)
  drawdownReached based config.risk.allTimeDrawdownLimitPct ∨
    dailyLossExceeded based (config.zone.dateKey now) config.risk.dailyLossLimitUsdc

instance (config : BrokerConfig) (s : LedgerState) (now : Time) :
    Decidable (exitPersists config s now) :=
  inferInstanceAs (Decidable (_ ∨ _))

/-! ## States and steps -/

structure ControlState extends PassState where
  /-- calls of `persist_risk_state` that have not run yet -/
  queued : List (Controls × Time)
  clock : Time

def ControlState.init (config : BrokerConfig) (startingEquity : ℚ) (now : Time) :
    ControlState where
  toPassState := PassState.init config startingEquity now
  queued := []
  clock := now

inductive Action
  /-- a step of the candidate loop or the exit loop -/
  | loop (op : PassOp)
  /-- the risk check of `_open_candidate` -/
  | evaluate (notionalUsdc : ℚ) (tokenMint : String)
  /-- the exit loop after the marks of a pass that began at `passNow` -/
  | exitHalts (passNow : Time)
  | pause (reason : String)
  | resume
  /-- `clear_halt(force=True)` -/
  | forceClear
  /-- a queued write runs -/
  | persisted (n : Nat)
  | restart (signals : List SignalRow)

section Step

variable (config : BrokerConfig) (policy : ExitPolicy) (s : ControlState) (now : Time)

/-- Queue the controls of a ledger for the account row. -/
def ControlState.persist (ledger : LedgerState) : ControlState :=
  { s with ledger := ledger, queued := s.queued ++ [(controls ledger, now)] }

/-- The risk check; a refusal is persisted. -/
def ControlState.evaluate (notionalUsdc : ℚ) (tokenMint : String) : ControlState :=
  match s.entry, evaluateEntry config.risk config.zone now s.ledger notionalUsdc tokenMint with
  | .idle, (.ok (.block _), ledger) => s.persist now ledger
  | .idle, (_, ledger) => { s with ledger := ledger }
  | _, _ => s

def ControlState.perform : Action → ControlState
  | .loop op => { s with toPassState := s.toPassState.step config policy op }
  | .evaluate notionalUsdc tokenMint => s.evaluate config now notionalUsdc tokenMint
  | .exitHalts passNow =>
      let ledger := Runtime.exitHalts config s.ledger passNow now
      if exitPersists config s.ledger now then s.persist now ledger
      else { s with ledger := ledger }
  | .pause reason => s.persist now (setHalt s.ledger reason)
  | .resume => match clearHalt s.ledger false with
    | (true, ledger) => s.persist now ledger
    | (false, _) => s
  | .forceClear => { s with ledger := (clearHalt s.ledger true).2 }
  | .persisted n => match s.queued[n]? with
    | none => s
    | some write =>
        { s with
          db := (persistRiskState config.ownedRun write.1 write.2 s.db).2
          queued := s.queued.eraseIdx n }
  | .restart signals => match startLedger s.db signals config.zone now with
    | none => s
    | some ledger =>
        { s with
          ledger := ledger, entry := .idle, exit := .idle, pass := .idle, queued := [] }

end Step

/-- A step at a time. -/
def ControlState.step (config : BrokerConfig) (policy : ExitPolicy) (s : ControlState)
    (a : Time × Action) : ControlState :=
  { s.perform config policy a.1 a.2 with clock := a.1 }

/-- Time does not run backwards, and the clock readings of a call are those of its steps. -/
def Timed (s : ControlState) (a : Time × Action) : Prop :=
  s.clock ≤ a.1 ∧ match a.2 with
    | .loop (.checkEntry req) => req.now = a.1
    | .loop .commitEntry => match s.entry with
      | .checked req => req.filledAt = a.1
      | _ => True
    | .exitHalts passNow => passNow ≤ a.1
    | _ => True

instance (s : ControlState) : (a : Time × Action) → Decidable (Timed s a)
  | (now, .loop .commitEntry) => match h : s.entry with
    | .checked req => decidable_of_iff (s.clock ≤ now ∧ req.filledAt = now) (by simp [Timed, h])
    | .idle => decidable_of_iff (s.clock ≤ now) (by simp [Timed, h])
    | .committed .. => decidable_of_iff (s.clock ≤ now) (by simp [Timed, h])
  | (now, .loop (.checkEntry req)) => inferInstanceAs (Decidable (s.clock ≤ now ∧ req.now = now))
  | (now, .exitHalts passNow) => inferInstanceAs (Decidable (s.clock ≤ now ∧ passNow ≤ now))
  | (now, .loop .bookEntry) | (now, .loop .listPositions) | (now, .loop (.quotePosition _))
  | (now, .loop (.quoteFailed _)) | (now, .loop (.mark _)) | (now, .loop .writeMarks)
  | (now, .loop (.exitPosition ..)) | (now, .loop .commitExit) | (now, .loop .bookExit)
  | (now, .evaluate ..) | (now, .pause _) | (now, .resume) | (now, .forceClear)
  | (now, .persisted _) | (now, .restart _) => inferInstanceAs (Decidable (s.clock ≤ now ∧ True))

/-! ## What the loops leave alone -/

section Frame

variable {config : BrokerConfig} {policy : ExitPolicy}

/-- The halt and its date. -/
def SameHalt (s t : LedgerState) : Prop :=
  t.haltReason = s.haltReason ∧ t.dailyHaltDate = s.dailyHaltDate

theorem SameHalt.refl (s : LedgerState) : SameHalt s s := ⟨rfl, rfl⟩

theorem openPosition_sameHalt {s next : LedgerState} {args : OpenArgs} {p : PositionRecord}
    (h : openPosition s args = .ok (next, p)) : SameHalt s next := by
  rcases openPosition_cases h with rfl | ⟨valid, rfl, -⟩
  · exact ⟨rfl, rfl⟩
  · exact ⟨rfl, rfl⟩

theorem closePosition_sameHalt {dateKey : Time → String} {s next : LedgerState} {args : CloseArgs}
    {p : PositionRecord} (h : closePosition dateKey s args = .ok (next, p)) : SameHalt s next := by
  rcases closePosition_cases h with rfl | ⟨id, position, valid, rfl, -⟩
  · exact ⟨rfl, rfl⟩
  · exact ⟨rfl, rfl⟩

theorem checkExit_ledger (s : PassState) (req : CloseRequest) :
    (checkExit s req).ledger = s.ledger := by
  unfold checkExit
  split
  · rfl
  · split
    · rfl
    · split
      · rfl
      · split <;> rfl

/-- Only the check of an entry touches the halt. -/
theorem step_sameHalt (s : PassState) {op : PassOp} (h : ∀ req, op ≠ .checkEntry req) :
    SameHalt s.ledger (s.step config policy op).ledger := by
  cases op with
  | checkEntry req => exact absurd rfl (h req)
  | commitEntry =>
      simp only [PassState.step]
      split
      · unfold commitEntry
        split
        · split
          · exact ⟨rfl, rfl⟩
          · split <;> exact ⟨rfl, rfl⟩
        · exact ⟨rfl, rfl⟩
      · exact ⟨rfl, rfl⟩
  | bookEntry =>
      simp only [PassState.step]
      split
      · unfold bookEntry
        split
        · exact ⟨rfl, rfl⟩
        · rename_i hbook
          exact openPosition_sameHalt hbook
      · exact ⟨rfl, rfl⟩
  | listPositions =>
      simp only [PassState.step]
      split <;> exact ⟨rfl, rfl⟩
  | quotePosition quote =>
      simp only [PassState.step]
      split
      · unfold quotePosition
        split <;> exact ⟨rfl, rfl⟩
      · exact ⟨rfl, rfl⟩
  | quoteFailed giveUp =>
      simp only [PassState.step]
      split
      · unfold quoteFailed
        dsimp only
        split
        · exact ⟨rfl, rfl⟩
        · rw [checkExit_ledger]
          exact ⟨rfl, rfl⟩
      · exact ⟨rfl, rfl⟩
  | mark now =>
      simp only [PassState.step]
      split
      · unfold markPass
        split <;> exact ⟨rfl, rfl⟩
      · exact ⟨rfl, rfl⟩
  | writeMarks =>
      simp only [PassState.step]
      split <;> exact ⟨rfl, rfl⟩
  | exitPosition positionId price now momentumExit emergencyExit draw =>
      simp only [PassState.step]
      split
      · split
        · exact ⟨rfl, rfl⟩
        · rw [checkExit_ledger]
          exact ⟨rfl, rfl⟩
      · exact ⟨rfl, rfl⟩
  | commitExit =>
      simp only [PassState.step]
      split
      · unfold commitExit
        split <;> exact ⟨rfl, rfl⟩
      · exact ⟨rfl, rfl⟩
  | bookExit =>
      simp only [PassState.step]
      split
      · unfold bookExit
        split
        · exact ⟨rfl, rfl⟩
        · rename_i hbook
          exact closePosition_sameHalt hbook
      · exact ⟨rfl, rfl⟩

end Frame

end SniperBot.Runtime
