import SniperBot.Paper.Broker

/-!
# The ledger after a restart

`load_paper_ledger` (`database.py`) and `PaperLedger.restore_from_database` (`ledger.py`): the
in-memory ledger is rebuilt from the rows. The controls (halt, pause, date of the daily halt) are
those of the account row, an open or partial row becomes an open position, and every fill row
becomes a fill. Restoring raises when a fill has no order or its costs fail validation.

`start` (`runtime.py`) then sets the equity baseline of the day from the equity marks.
-/

namespace SniperBot.Paper

open Basis Ledger Risk

/-- A row of `signal_evaluations`; a list of them is ordered by evaluation time. -/
structure SignalRow where
  candidateId : String
  score : ℚ
  quoteLiquidityUsd : Option ℚ
  poolAgeSeconds : Option ℚ

section Rows

variable (db : PaperDb) (signals : List SignalRow)

/-- The candidate of the BUY order that opened a position. -/
def PaperDb.candidateOf (positionId : String) : Option String :=
  (db.orders.entries.find? fun e => e.2.positionId = some positionId ∧ e.2.side = .buy).bind
    (·.2.candidateId)

def lastSignal (candidateId : Option String) : Option SignalRow :=
  signals.reverse.find? fun signal => some signal.candidateId = candidateId

def restoredPosition (id : String) (row : PositionRow) : PositionRecord :=
  let candidateId := db.candidateOf id
  let signal := lastSignal signals candidateId
  { positionId := id
    tokenMint := row.mint
    openFillId := row.openFillId
    entryTokenAmount := row.initialTokenAmountRaw
    entryCostUsd := row.initialCostUsd
    openRatio := row.initialCostUsd / row.initialTokenAmountRaw
    openedAt := row.entryTime
    closedAt := row.closedAt
    lockedUsd := row.remainingCostUsd
    status := if row.status.Live then .opened else .closed
    remainingTokenAmount := row.tokenAmountRaw
    remainingCostUsd := row.remainingCostUsd
    realizedPnlUsd := row.realizedPnl
    mfePct := row.mfePct
    maePct := row.maePct
    highestExecutableValueUsd := row.highestExecutableValue
    lowestExecutableValueUsd := some row.lowestExecutableValue
    -- the payload of `load_paper_ledger` has no `unrealized_pnl`, which counts as zero
    lastExecutableValueUsd := row.remainingCostUsd + 0
    tp1Taken := row.tp1Taken
    tp2Taken := row.tp2Taken
    lastNewHighAt := row.lastNewHighAt
    finalExitReason := row.exitReason
    context :=
      { candidateId := candidateId
        poolAddress := some row.poolAddress
        entryScore := signal.map (·.score)
        entryLiquidityUsd := signal.bind (·.quoteLiquidityUsd)
        entryPoolAgeSeconds := signal.bind (·.poolAgeSeconds)
        strategyVersion := some row.strategyVersionId } }

def restoredCosts (row : FillRow) : FillCosts where
  priceImpactPct := row.priceImpactPct
  platformFeeUsd := row.platformFeeUsd
  networkFeeUsd := row.networkFeeUsd
  otherCostUsd := row.otherCostUsd
  adverseFillBps := row.adverseFillBps

/-- A fill row with its order; `none` when the order is missing or the costs are not valid. -/
def restoredFill (id : String) (row : FillRow) : Option FillRecord :=
  (db.orders.get? row.orderId).bind fun order =>
    let positionId := order.positionId.getD ""
    if valid : (restoredCosts row).Valid then
      some
        { fillId := id
          positionId := positionId
          tokenMint := ((db.positions.get? positionId).map (·.mint)).getD "unknown"
          orderId := row.orderId
          quoteId := (order.quoteRequestId.filter (· ≠ "")).getD "unrecoverable"
          fillType := match row.side with
            | .buy => .entry
            | .sell => .exit
          tokenAmount := match row.side with
            | .buy => row.outputRawAmount
            | .sell => row.inputRawAmount
          usdNotional := match row.side with
            | .buy => row.inputUsd
            | .sell => row.outputUsd
          costBasisUsd := row.costBasisUsd
          createdAt := row.filledAt
          exitReason := row.exitReason
          costs := restoredCosts row
          valid := valid }
    else none

/-- The loop over the fills: the fill, its index and the result of its day. -/
def restoreFill (zone : TimeZone) (s : LedgerState) (id : String) (row : FillRow) :
    Option LedgerState :=
  (restoredFill db id row).map fun fill =>
    match row.side with
    | .buy =>
        { s with
          fills := s.fills ++ [fill]
          orderIdIndex := s.orderIdIndex.set row.orderId fill.positionId }
    | .sell =>
        let day := zone.dateKey row.filledAt
        { s with
          fills := s.fills ++ [fill]
          closeOrderIdIndex := s.closeOrderIdIndex.set row.orderId fill.positionId
          closeFillIdIndex := s.closeFillIdIndex.set row.orderId id
          dailyPnl := s.dailyPnl.set day ((s.dailyPnl.get? day).getD 0 + row.realizedPnlUsd) }

/-- The ledger before the loop over the fills. -/
def restoredBase (account : AccountRow) : LedgerState where
  equityUsd := account.equity
  peakEquityUsd := account.peakEquity
  realizedPnlUsd := account.realizedPnl
  unrealizedPnlUsd := account.unrealizedPnl
  lockedCapitalUsd := account.lockedCapital
  haltReason := account.haltReason
  pauseUntil := account.pauseUntil
  dailyHaltDate := account.dailyHaltDate
  positions := db.positions.mapValues (restoredPosition db signals)
  tokenIndex := Dict.collect (·.2.mint)
    (fun e => if e.2.status.Live then some e.1 else none) db.positions.entries Dict.empty

/-- `load_paper_ledger` and `restore_from_database`: nothing to restore without an account. -/
def restoreLedger (zone : TimeZone) : Option LedgerState :=
  db.account.bind fun account =>
    db.fills.entries.foldlM (fun s e => restoreFill db zone s e.1 e.2)
      (restoredBase db signals account)

/-- The ledger that a new process starts with. -/
def startLedger (zone : TimeZone) (now : Time) : Option LedgerState :=
  (restoreLedger db signals zone).map fun s =>
    match db.baselineEquity (zone.dayBounds now).1 (zone.dayBounds now).2 with
    | none => s
    | some baseline =>
        { s with dailyEquityBaseline := s.dailyEquityBaseline.set (zone.dateKey now) baseline }

end Rows

/-! ## What a restart restores -/

section Restored

variable {db : PaperDb} {signals : List SignalRow} {zone : TimeZone}

/-- A fill changes neither the positions nor the controls. -/
theorem restoreFill_frame {s next : LedgerState} {id : String} {row : FillRow}
    (h : restoreFill db zone s id row = some next) :
    next.positions = s.positions ∧ next.tokenIndex = s.tokenIndex ∧
      next.haltReason = s.haltReason ∧ next.dailyHaltDate = s.dailyHaltDate := by
  obtain ⟨fill, -, rfl⟩ := Option.map_eq_some_iff.mp h
  cases row.side <;> exact ⟨rfl, rfl, rfl, rfl⟩

theorem restoreFills_frame {entries : List (String × FillRow)} {s next : LedgerState}
    (h : entries.foldlM (fun s e => restoreFill db zone s e.1 e.2) s = some next) :
    next.positions = s.positions ∧ next.tokenIndex = s.tokenIndex ∧
      next.haltReason = s.haltReason ∧ next.dailyHaltDate = s.dailyHaltDate := by
  induction entries generalizing s with
  | nil =>
      cases h
      exact ⟨rfl, rfl, rfl, rfl⟩
  | cons e entries ih =>
      rw [List.foldlM_cons] at h
      obtain ⟨mid, hmid, hrest⟩ := Option.bind_eq_some_iff.mp h
      obtain ⟨hpositions, hindex, hhalt, hdate⟩ := restoreFill_frame hmid
      obtain ⟨hpositions', hindex', hhalt', hdate'⟩ := ih hrest
      exact ⟨hpositions'.trans hpositions, hindex'.trans hindex, hhalt'.trans hhalt,
        hdate'.trans hdate⟩

theorem startLedger_frame {now : Time} {ledger : LedgerState}
    (h : startLedger db signals zone now = some ledger) :
    ∃ account, db.account = some account ∧
      ledger.positions = db.positions.mapValues (restoredPosition db signals) ∧
      ledger.tokenIndex = (restoredBase db signals account).tokenIndex ∧
      ledger.haltReason = account.haltReason ∧ ledger.dailyHaltDate = account.dailyHaltDate := by
  obtain ⟨restored, hrestored, rfl⟩ := Option.map_eq_some_iff.mp h
  obtain ⟨account, haccount, hfills⟩ := Option.bind_eq_some_iff.mp hrestored
  obtain ⟨hpositions, hindex, hhalt, hdate⟩ := restoreFills_frame hfills
  refine ⟨account, haccount, ?_⟩
  split <;> exact ⟨hpositions, hindex, hhalt, hdate⟩

/-- The restored fills: an exit order in the index has a fill, and an entry fill has a BUY row. -/
structure FillsRestored (db : PaperDb) (s : LedgerState) : Prop where
  exits : ∀ orderId id, s.closeOrderIdIndex.get? orderId = some id →
    ∃ fill ∈ s.fills, fill.orderId = orderId
  entries : ∀ fill ∈ s.fills, fill.fillType = .entry →
    ∃ e ∈ db.fills.entries, e.2.side = .buy ∧ fill.orderId = e.2.orderId

theorem restoredFill_spec {id : String} {row : FillRow} {fill : FillRecord}
    (h : restoredFill db id row = some fill) :
    fill.orderId = row.orderId ∧ (fill.fillType = .entry → row.side = .buy) := by
  obtain ⟨order, -, hfill⟩ := Option.bind_eq_some_iff.mp h
  dsimp only at hfill
  split at hfill
  · cases hfill
    cases hside : row.side with
    | buy => exact ⟨rfl, fun _ => rfl⟩
    | sell => exact ⟨rfl, by rintro ⟨⟩⟩
  · cases hfill

theorem FillsRestored.step {s next : LedgerState} (h : FillsRestored db s) {id : String}
    {row : FillRow} (hrow : (id, row) ∈ db.fills.entries)
    (hnext : restoreFill db zone s id row = some next) : FillsRestored db next := by
  obtain ⟨fill, hfill, rfl⟩ := Option.map_eq_some_iff.mp hnext
  obtain ⟨horder, hside⟩ := restoredFill_spec hfill
  have hentries : ∀ f ∈ s.fills ++ [fill], f.fillType = .entry →
      ∃ e ∈ db.fills.entries, e.2.side = .buy ∧ f.orderId = e.2.orderId := by
    intro f hmem htype
    rcases List.mem_append.mp hmem with hold | hnew
    · exact h.entries f hold htype
    · rw [List.mem_singleton] at hnew
      subst hnew
      exact ⟨(id, row), hrow, hside htype, horder⟩
  have hexits : ∀ orderId j, s.closeOrderIdIndex.get? orderId = some j →
      ∃ f ∈ s.fills ++ [fill], f.orderId = orderId := by
    intro orderId j hget
    obtain ⟨f, hmem, heq⟩ := h.exits orderId j hget
    exact ⟨f, List.mem_append_left _ hmem, heq⟩
  cases row.side with
  | buy => exact ⟨hexits, hentries⟩
  | sell =>
      refine ⟨fun orderId j hget => ?_, hentries⟩
      simp only [Dict.get?_set] at hget
      split at hget
      · rename_i heq
        exact ⟨fill, List.mem_append_right _ (List.mem_singleton_self _), horder.trans heq⟩
      · exact hexits orderId j hget

theorem FillsRestored.fold {entries : List (String × FillRow)}
    (hentries : ∀ e ∈ entries, e ∈ db.fills.entries) {s next : LedgerState}
    (h : FillsRestored db s)
    (hnext : entries.foldlM (fun s e => restoreFill db zone s e.1 e.2) s = some next) :
    FillsRestored db next := by
  induction entries generalizing s with
  | nil =>
      cases hnext
      exact h
  | cons e entries ih =>
      rw [List.foldlM_cons] at hnext
      obtain ⟨mid, hmid, hrest⟩ := Option.bind_eq_some_iff.mp hnext
      exact ih (fun e he => hentries e (List.mem_cons_of_mem _ he))
        (h.step (hentries e List.mem_cons_self) hmid) hrest

theorem startLedger_fills {now : Time} {ledger : LedgerState}
    (h : startLedger db signals zone now = some ledger) : FillsRestored db ledger := by
  obtain ⟨restored, hrestored, rfl⟩ := Option.map_eq_some_iff.mp h
  obtain ⟨account, -, hfills⟩ := Option.bind_eq_some_iff.mp hrestored
  have hbase : FillsRestored db (restoredBase db signals account) :=
    ⟨by rintro _ _ ⟨⟩, by rintro _ ⟨⟩⟩
  have hfold := hbase.fold (fun _ he => he) hfills
  split
  · exact hfold
  · exact ⟨hfold.exits, hfold.entries⟩

end Restored

end SniperBot.Paper
