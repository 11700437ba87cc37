import SniperBot.Basis.Grouping
import SniperBot.Basis.Windows
import SniperBot.Paper.Solvency
import SniperBot.Reports.OpenPositions

/-!
# Summaries of the trading days

`load_daily_trading_summary` (`database.py`) counts and sums the rows of one day for its report.
Consecutive days add up to the account (`summaries_add_up`): every entry, exit, realized gain and
cost is reported on exactly one day, and the open positions of a day are those of the day before,
with the entries and without the positions that ended.

A position that is given up ends as `UNRECOVERABLE`. It is no longer open, but `closed` counts the
status `CLOSED` only, so it leaves the reports without being counted.
-/

namespace SniperBot.Reports

open Basis Paper

/-! ## The tables of the signals -/

structure PoolTime where
  poolAddress : String
  creationTime : Time
  deriving DecidableEq, Repr

structure SecurityCheckTime where
  mint : String
  checkedAt : Time
  deriving DecidableEq, Repr

structure CandidateOutcome where
  detectedAt : Time
  rejectReason : Option String
  deriving DecidableEq, Repr

structure EvaluationScore where
  candidateId : String
  evaluatedAt : Time
  score : ℚ
  deriving DecidableEq, Repr

structure SignalTables where
  pools : List PoolTime := []
  checks : List SecurityCheckTime := []
  candidates : List CandidateOutcome := []
  evaluations : List EvaluationScore := []

/-! ## The summary -/

structure SignalCounts where
  newPools : ℕ
  tokensChecked : ℕ
  hardRejects : ℕ
  score60Plus : ℕ
  score80Plus : ℕ
  paperEntries : ℕ
  riskLimitSkips : ℕ
  deriving DecidableEq, Repr

structure TradeCounts where
  closed : ℕ
  profitable : ℕ
  losing : ℕ
  winRate : ℚ
  deriving DecidableEq, Repr

structure ExecutionQuality where
  averageBuyImpactPct : ℚ
  averageSellImpactPct : ℚ
  averageAdverseFillBps : ℚ
  deriving DecidableEq, Repr

structure DailyTradingSummary where
  signals : SignalCounts
  trades : TradeCounts
  realizedPnlUsd : ℚ
  simulatedCostsUsd : ℚ
  executionQuality : ExecutionQuality
  exitReasons : Dict String ℕ
  rejections : Dict String ℕ
  openPositions : List OpenRow

/-- `count(distinct ...)` -/
def countDistinct (values : List String) : ℕ := values.dedup.length

/-- `coalesce(avg(...), 0)` -/
def average (values : List ℚ) : ℚ := if values = [] then 0 else values.sum / values.length

/-- The counts of `GROUP BY`. -/
def countBy (values : List String) : Dict String ℕ :=
  (Dict.group id values).mapValues fun _ members => members.length

/-- The status column as text. -/
def rowStatusText : RowStatus → String
  | .opened => "OPEN"
  | .partly => "PARTIAL"
  | .closed => "CLOSED"
  | .unrecoverable => "UNRECOVERABLE"

def summaryRow (entry : String × PositionRow) : OpenRow where
  positionId := entry.1
  tokenMint := entry.2.mint
  remainingTokenAmount := entry.2.tokenAmountRaw
  remainingCostUsd := entry.2.remainingCostUsd
  openedAt := entry.2.entryTime
  status := rowStatusText entry.2.status

/-- The reasons that count as a skip for the risk limits. -/
def riskLimitReasons : List String :=
  ["DAILY_RISK_LIMIT", "MAX_OPEN_POSITIONS", "RISK_MANAGER_BLOCKED"]

/-- The simulated costs of a fill. -/
def fillCosts (fill : FillRow) : ℚ := fill.platformFeeUsd + fill.networkFeeUsd + fill.otherCostUsd

section Summary

variable (db : PaperDb) (startUtc endUtc : Time)

/-- The fills of one side. -/
def fillsOn (side : Side) : List FillRow := db.fills.values.filter fun fill => fill.side = side

def fillsDuring (side : Side) : List FillRow :=
  during FillRow.filledAt (fillsOn db side) startUtc endUtc

/-- The positions that end with the status. -/
def endedAs (status : RowStatus) : List PositionRow :=
  endedDuring PositionRow.closedAt (db.positions.values.filter fun row => row.status = status)
    startUtc endUtc

/-- The entries of the position table that are open at the end, by the time of their entry. -/
def openAtEnd : List (String × PositionRow) :=
  sortedBy (fun entry => entry.2.entryTime) (runningAt (fun entry : String × PositionRow =>
    entry.2.entryTime) (fun entry => entry.2.closedAt) db.positions.entries endUtc)

/-- What `load_daily_trading_summary` returns. -/
def dailyTradingSummary (signals : SignalTables) : DailyTradingSummary :=
  let candidates := during CandidateOutcome.detectedAt signals.candidates startUtc endUtc
  let evaluations := during EvaluationScore.evaluatedAt signals.evaluations startUtc endUtc
  let scored (least : ℚ) := evaluations.filter fun evaluation => least ≤ evaluation.score
  let fills := during FillRow.filledAt db.fills.values startUtc endUtc
  let buys := fillsDuring db startUtc endUtc .buy
  let sells := fillsDuring db startUtc endUtc .sell
  let closedPnl : List ℚ := (endedAs db startUtc endUtc .closed).map (·.realizedPnl)
  let wins := closedPnl.countP fun value : ℚ => 0 < value
  let reasons := candidates.filterMap (·.rejectReason)
  { signals :=
      { newPools := countDistinct
          ((during PoolTime.creationTime signals.pools startUtc endUtc).map (·.poolAddress))
        tokensChecked := countDistinct
          ((during SecurityCheckTime.checkedAt signals.checks startUtc endUtc).map (·.mint))
        hardRejects := reasons.length
        score60Plus := countDistinct ((scored 60).map (·.candidateId))
        score80Plus := countDistinct ((scored 80).map (·.candidateId))
        paperEntries := buys.length
        riskLimitSkips := reasons.countP fun reason => reason ∈ riskLimitReasons }
    trades :=
      { closed := closedPnl.length
        profitable := wins
        losing := closedPnl.countP fun value : ℚ => value < 0
        winRate := if closedPnl.length ≠ 0 then (wins : ℚ) / closedPnl.length else 0 }
    realizedPnlUsd := (sells.map (·.realizedPnlUsd)).sum
    simulatedCostsUsd := (fills.map fillCosts).sum
    executionQuality :=
      { averageBuyImpactPct := average (buys.map (·.priceImpactPct))
        averageSellImpactPct := average (sells.map (·.priceImpactPct))
        averageAdverseFillBps := average (fills.map fun fill => (fill.adverseFillBps : ℚ)) }
    exitReasons := countBy (sells.filterMap (·.exitReason))
    rejections := countBy reasons
    openPositions := (openAtEnd db endUtc).map summaryRow }

/-- `load_daily_trading_summary` -/
def loadDailyTradingSummary (signals : SignalTables) : Except String DailyTradingSummary :=
  if endUtc ≤ startUtc then .error "daily summary end must follow start"
  else .ok (dailyTradingSummary db startUtc endUtc signals)

end Summary

/-! ## What the rows say about the account -/

/-- A fill that is counted as an entry of the day. -/
def buysWhen (q : Time → Bool) (fill : FillRow) : ℕ :=
  if fill.side = .buy ∧ q fill.filledAt then 1 else 0

def entersWhen (q : Time → Bool) (row : PositionRow) : ℕ := if q row.entryTime then 1 else 0

def soldPnl (fill : FillRow) : ℚ := if fill.side = .sell then fill.realizedPnlUsd else 0

/-- The account is the sum of its fills, each entry has a position, and each position ends with an
exit. -/
structure Summarised (db : PaperDb) : Prop where
  realized : ∀ account ∈ db.account,
    account.realizedPnl = Dict.total (fun _ fill => soldPnl fill) db.fills
  costs : ∀ account ∈ db.account,
    account.simulatedCosts = Dict.total (fun _ fill => fillCosts fill) db.fills
  entries : ∀ q, Dict.total (fun _ fill => buysWhen q fill) db.fills =
    Dict.total (fun _ row => entersWhen q row) db.positions
  reasons : ∀ id fill, db.fills.get? id = some fill → fill.side = .sell → fill.exitReason.isSome
  spells : ∀ id row, db.positions.get? id = some row → ∀ time ∈ row.closedAt,
    row.entryTime ≤ time
  ended : ∀ id row, db.positions.get? id = some row →
    (row.closedAt = none ↔ row.status.Live)
  unopened : db.account = none → db.fills = Dict.empty

/-- No exit is booked before the entry of its position. -/
def ExitsFollow (db : PaperDb) : AccountOp → Prop
  | .book (.exit args) => ∀ entry ∈ db.livePosition args.mint, entry.2.entryTime ≤ args.filledAt
  | _ => True

instance (db : PaperDb) : (op : AccountOp) → Decidable (ExitsFollow db op)
  | .book (.exit args) => inferInstanceAs (Decidable (∀ entry ∈ db.livePosition args.mint, _))
  | .book (.initializeAccount _ _) | .book (.entry _) | .book (.operationalCost _)
  | .marks _ _ _ _ | .activeRun _ => isTrue trivial

/-! ## Every operation -/

section Operations

variable {db : PaperDb} {account : AccountRow}

theorem Summarised.init : Summarised {} where
  realized _ haccount := by cases haccount
  costs _ haccount := by cases haccount
  entries _ := rfl
  reasons _ _ hget := by cases hget
  spells _ _ hget := by cases hget
  ended _ _ hget := by cases hget
  unopened _ := rfl

theorem Summarised.initialized (h : Summarised db) (startingEquity : ℚ) (now : Time) :
    Summarised (initializePaperAccount startingEquity now db) := by
  unfold initializePaperAccount
  split
  · exact h
  · next hnone =>
      have hfills := h.unopened hnone
      exact
        { realized := by
            rintro _ ⟨⟩
            simp [hfills]
          costs := by
            rintro _ ⟨⟩
            simp [hfills]
          entries := h.entries
          reasons := h.reasons
          spells := h.spells
          ended := h.ended
          unopened := by rintro ⟨⟩ }

theorem Summarised.entered (h : Summarised db) {args : EntryArgs}
    (hcase : EntryCase db args account) : Summarised (db.entered account args) := by
  obtain ⟨stored, hstored, hcleared⟩ := hcase.stored
  obtain ⟨halt, pause, date, hframe⟩ := cleared_frame stored args.filledAt args.limits.dayKey
  have hrealized : account.realizedPnl = stored.realizedPnl := by rw [hcleared, hframe]
  have hcosts : account.simulatedCosts = stored.simulatedCosts := by rw [hcleared, hframe]
  refine ⟨?_, ?_, fun q => ?_, ?_, ?_, ?_, by rintro ⟨⟩⟩
  · rintro _ ⟨⟩
    show account.realizedPnl = Dict.total _ (db.fills.set args.fillId args.fill)
    rw [Dict.total_set_new _ hcase.freshFill, hrealized, h.realized stored hstored]
    simp [soldPnl, EntryArgs.fill]
  · rintro _ ⟨⟩
    show account.simulatedCosts + _ = Dict.total _ (db.fills.set args.fillId args.fill)
    rw [Dict.total_set_new _ hcase.freshFill, hcosts, h.costs stored hstored]
    rfl
  · show Dict.total _ (db.fills.set args.fillId args.fill) =
      Dict.total _ (db.positions.set args.positionId args.position)
    have hbuy : buysWhen q args.fill = entersWhen q args.position := by
      cases hq : q args.filledAt <;>
        simp [buysWhen, entersWhen, EntryArgs.fill, EntryArgs.position, hq]
    rw [Dict.total_set_new _ hcase.freshFill, Dict.total_set_new _ hcase.freshPosition,
      h.entries q, hbuy]
  · intro id fill hget hside
    simp only [PaperDb.entered, Dict.get?_set] at hget
    split at hget
    · cases hget
      cases hside
    · exact h.reasons id fill hget hside
  · intro id row hget time htime
    simp only [PaperDb.entered, Dict.get?_set] at hget
    split at hget
    · cases hget
      cases htime
    · exact h.spells id row hget time htime
  · intro id row hget
    simp only [PaperDb.entered, Dict.get?_set] at hget
    split at hget
    · cases hget
      exact ⟨fun _ => Or.inl rfl, fun _ => rfl⟩
    · exact h.ended id row hget

/-- After an exit the position is open if and only if it has no end. -/
theorem exitedRow_ended (args : ExitArgs) (row : PositionRow) :
    (args.exitedRow row).closedAt = none ↔ (args.exitedRow row).status.Live := by
  simp only [ExitArgs.exitedRow, ExitArgs.newStatus, RowStatus.Live]
  cases args.quote with
  | none => simp
  | some quote =>
      by_cases hfinal : args.Final row <;> simp [hfinal]

theorem Summarised.exited (h : Summarised db) {args : ExitArgs} {id : String} {row : PositionRow}
    (hcase : ExitCase db args account id row) (hfollows : row.entryTime ≤ args.filledAt) :
    Summarised (db.exited account args id row) := by
  have hget := (livePosition_some hcase.found).1
  refine ⟨?_, ?_, fun q => ?_, ?_, ?_, ?_, by rintro ⟨⟩⟩
  · rintro _ ⟨⟩
    show account.realizedPnl + _ = Dict.total _ (db.fills.set args.fillId (args.fill row))
    rw [Dict.total_set_new _ hcase.freshFill, h.realized account hcase.account]
    rfl
  · rintro _ ⟨⟩
    show account.simulatedCosts + _ = Dict.total _ (db.fills.set args.fillId (args.fill row))
    rw [Dict.total_set_new _ hcase.freshFill, h.costs account hcase.account]
    rfl
  · show Dict.total _ (db.fills.set args.fillId (args.fill row)) =
      Dict.total _ (db.positions.set id (args.exitedRow row))
    have hpositions := Dict.total_set_old (fun _ row => entersWhen q row) hget (args.exitedRow row)
    have hsame : entersWhen q (args.exitedRow row) = entersWhen q row := rfl
    have hsell : buysWhen q (args.fill row) = 0 := by simp [buysWhen, ExitArgs.fill]
    rw [Dict.total_set_new _ hcase.freshFill, h.entries q, hsell, add_zero]
    rw [hsame] at hpositions
    omega
  · intro other fill hother hside
    simp only [PaperDb.exited, Dict.get?_set] at hother
    split at hother
    · cases hother
      rfl
    · exact h.reasons other fill hother hside
  · intro other stored hother time htime
    simp only [PaperDb.exited, Dict.get?_set] at hother
    split at hother
    · cases hother
      simp only [ExitArgs.exitedRow] at htime ⊢
      split at htime
      · cases htime
        exact hfollows
      · cases htime
    · exact h.spells other stored hother time htime
  · intro other stored hother
    simp only [PaperDb.exited, Dict.get?_set] at hother
    split at hother
    · cases hother
      exact exitedRow_ended args row
    · exact h.ended other stored hother

theorem Summarised.charged (h : Summarised db) (args : CostArgs) (haccount : db.account = some account) :
    Summarised (db.charged account args) where
  realized := by
    rintro _ ⟨⟩
    exact h.realized account haccount
  costs := by
    rintro _ ⟨⟩
    exact h.costs account haccount
  entries := h.entries
  reasons := h.reasons
  spells := h.spells
  ended := h.ended
  unopened := by rintro ⟨⟩

/-- The life of a position. -/
def lifeOf (row : PositionRow) : Time × Option Time × RowStatus :=
  (row.entryTime, row.closedAt, row.status)

theorem Summarised.marked (h : Summarised db) {values : Dict String ℚ}
    {snapshot : Ledger.LedgerState} {observedAt : Time} (haccount : db.account = some account) :
    Summarised (db.marked account values snapshot observedAt) := by
  have hlife (id : String) :
      ((db.marked account values snapshot observedAt).positions.get? id).map lifeOf =
        (db.positions.get? id).map lifeOf :=
    Dict.map_get?_foldl_update Ledger.PositionRecord.positionId (markedRow values) lifeOf
      (fun _ _ => rfl) snapshot.openPositions db.positions id
  have hstored {id : String} {row : PositionRow}
      (hget : (db.marked account values snapshot observedAt).positions.get? id = some row) :
      ∃ old, db.positions.get? id = some old ∧ lifeOf old = lifeOf row := by
    have hid := hlife id
    rw [hget] at hid
    exact Option.map_eq_some_iff.mp hid.symm
  refine ⟨?_, ?_, fun q => ?_, h.reasons, ?_, ?_, by rintro ⟨⟩⟩
  · rintro _ ⟨⟩
    exact h.realized account haccount
  · rintro _ ⟨⟩
    exact h.costs account haccount
  · rw [show (db.marked account values snapshot observedAt).fills = db.fills from rfl, h.entries q]
    refine Dict.total_eq_total fun id => ?_
    have hid := congrArg (Option.map fun life : Time × Option Time × RowStatus =>
      if q life.1 then 1 else 0) (hlife id)
    rw [Option.map_map, Option.map_map] at hid
    exact congrArg (·.getD 0) hid.symm
  · intro id row hget time htime
    obtain ⟨old, hold, heq⟩ := hstored hget
    simp only [lifeOf, Prod.mk.injEq] at heq
    rw [← heq.1]
    exact h.spells id old hold time (heq.2.1 ▸ htime)
  · intro id row hget
    obtain ⟨old, hold, heq⟩ := hstored hget
    simp only [lifeOf, Prod.mk.injEq] at heq
    rw [← heq.2.1, ← heq.2.2]
    exact h.ended id old hold

theorem Summarised.advance (h : Summarised db) (op : AccountOp) (hop : ExitsFollow db op) :
    Summarised (db.advance op) := by
  cases op with
  | activeRun run =>
      exact ⟨h.realized, h.costs, h.entries, h.reasons, h.spells, h.ended, h.unopened⟩
  | marks ownedRun values snapshot observedAt =>
      refine transaction_of_cases h ?_
      split
      · exact Or.inl ⟨_, rfl⟩
      · next account haccount =>
          split
          · exact Or.inl ⟨_, rfl⟩
          · exact Or.inr (h.marked haccount)
  | book op =>
      cases op with
      | initializeAccount startingEquity now => exact h.initialized startingEquity now
      | entry args => exact commitPaperEntry_rule args h fun account hcase => h.entered hcase
      | exit args =>
          refine commitPaperExit_rule args h fun account id row hcase => h.exited hcase ?_
          exact hop (id, row) hcase.found
      | operationalCost args =>
          exact recordOperationalCost_rule args h fun account haccount => h.charged args haccount

theorem run_summarised {ops : List AccountOp}
    (hrun : Along ExitsFollow PaperDb.advance {} ops) :
    Summarised (exec PaperDb.advance {} ops) :=
  hrun.invariant (I := Summarised) (fun _ op h hop => h.advance op hop) .init

end Operations

/-! ## Days that add up -/

/-- The figures of the days make up those of the account. -/
structure AddUp (db : PaperDb) (account : AccountRow) (days : List DailyTradingSummary) : Prop where
  realized : (days.map (·.realizedPnlUsd)).sum = account.realizedPnl
  costs : (days.map (·.simulatedCostsUsd)).sum = account.simulatedCosts
  entries : (days.map (·.signals.paperEntries)).sum = db.positions.entries.length
  exits : (days.map fun day => Dict.total (fun _ count => count) day.exitReasons).sum +
    db.positions.entries.length = db.fills.entries.length

section Days

variable {db : PaperDb} {signals : SignalTables} {startUtc endUtc : Time}

theorem loadDailyTradingSummary_ok {summary : DailyTradingSummary}
    (h : loadDailyTradingSummary db startUtc endUtc signals = .ok summary) :
    startUtc < endUtc ∧ summary = dailyTradingSummary db startUtc endUtc signals := by
  unfold loadDailyTradingSummary at h
  split at h
  · cases h
  · next hlt =>
      cases h
      exact ⟨not_le.mp hlt, rfl⟩

/-- The bounds of loaded days are in order. -/
theorem loaded_days {start : Time} {bounds : List Time} {days : List DailyTradingSummary}
    (h : List.Forall₂ (fun w day => loadDailyTradingSummary db w.1 w.2 signals = .ok day)
      (windows start bounds) days) :
    (start :: bounds).IsChain (· ≤ ·) ∧
      days = (windows start bounds).map fun w => dailyTradingSummary db w.1 w.2 signals := by
  induction bounds generalizing start days with
  | nil =>
      cases h
      exact ⟨List.isChain_singleton _, rfl⟩
  | cons stop rest ih =>
      cases h with
      | cons hday hrest =>
          obtain ⟨hlt, rfl⟩ := loadDailyTradingSummary_ok hday
          obtain ⟨hchain, rfl⟩ := ih hrest
          exact ⟨List.isChain_cons_cons.mpr ⟨hlt.le, hchain⟩, rfl⟩

theorem sum_values {M : Type} [AddCommMonoid M] (weight : FillRow → M)
    (fills : Dict String FillRow) :
    (fills.values.map weight).sum = Dict.total (fun _ fill => weight fill) fills := by
  rw [Dict.values, List.map_map]
  rfl

/-- A sum over the fills of one side. -/
theorem sum_fillsOn {M : Type} [AddCommMonoid M] (db : PaperDb) (side : Side)
    (weight : FillRow → M) :
    ((fillsOn db side).map weight).sum =
      Dict.total (fun _ fill => if fill.side = side then weight fill else 0) db.fills := by
  rw [fillsOn, sum_filter, sum_values fun fill => if decide (fill.side = side) = true then
    weight fill else 0]
  simp only [decide_eq_true_eq]

/-- A fill is an exit or an entry. -/
theorem length_fillsOn (db : PaperDb) :
    (fillsOn db .sell).length + (fillsOn db .buy).length = db.fills.entries.length := by
  have hvalues : db.fills.values.length = db.fills.entries.length := List.length_map _
  rw [← hvalues, fillsOn, fillsOn]
  induction db.fills.values with
  | nil => rfl
  | cons fill rest ih =>
      cases hside : fill.side with
      | buy =>
          simp [hside]
          omega
      | sell =>
          simp [hside]
          omega

/-- Each of the counted values is in one group. -/
theorem total_countBy (values : List String) :
    Dict.total (fun _ count => count) (countBy values) = values.length := by
  rw [countBy, Dict.total_mapValues, ← (Dict.group_perm id values).length_eq, List.length_flatMap]
  rfl

/-- Every exit of the day has a reason. -/
theorem length_exitReasons (h : Summarised db) :
    ((fillsDuring db startUtc endUtc .sell).filterMap (·.exitReason)).length =
      (fillsDuring db startUtc endUtc .sell).length := by
  refine List.filterMap_length_eq_length.mpr fun fill hfill => ?_
  obtain ⟨hside, hstored⟩ := List.mem_filter.mp (List.mem_filter.mp hfill).1
  obtain ⟨id, hget⟩ := Dict.mem_values.mp hside
  exact h.reasons id fill hget (by simpa using hstored)

/-- The entries of the window have their positions. -/
theorem length_entries (h : Summarised db) :
    (fillsDuring db startUtc endUtc .buy).length =
      (during (fun entry : String × PositionRow => entry.2.entryTime) db.positions.entries startUtc
        endUtc).length := by
  have hfills := h.entries fun time => Within startUtc endUtc time
  rw [fillsDuring, length_during, length_during, windowSum_eq, windowSum_eq, sum_fillsOn]
  convert hfills using 1
  · refine Dict.total_congr fun _ fill _ => ?_
    by_cases hside : fill.side = .buy <;> simp [buysWhen, hside]
  · simp [Dict.total, entersWhen]

/-- A position that has ended is closed or given up. -/
theorem length_ended (h : Summarised db) :
    (endedDuring (fun entry : String × PositionRow => entry.2.closedAt) db.positions.entries startUtc
        endUtc).length =
      (endedAs db startUtc endUtc .closed).length +
        (endedAs db startUtc endUtc .unrecoverable).length := by
  have hstatus : ∀ entry ∈ db.positions.entries, entry.2.closedAt ≠ none →
      entry.2.status = .closed ∨ entry.2.status = .unrecoverable := by
    intro entry hentry hclosed
    have hlive := mt (h.ended entry.1 entry.2 (Dict.mem_entries.mp hentry)).mpr hclosed
    cases hrow : entry.2.status with
    | opened => exact absurd (Or.inl hrow) hlive
    | partly => exact absurd (Or.inr hrow) hlive
    | closed => exact Or.inl rfl
    | unrecoverable => exact Or.inr rfl
  simp only [endedAs, endedDuring, Dict.values, List.filter_filter, List.filter_map,
    List.length_map, ← List.countP_eq_length_filter]
  generalize db.positions.entries = entries at hstatus
  induction entries with
  | nil => rfl
  | cons entry rest ih =>
      have hrest := ih fun other hother => hstatus other (List.mem_cons_of_mem _ hother)
      have hentry := hstatus entry List.mem_cons_self
      simp only [List.countP_cons, Function.comp_apply, Bool.and_eq_true,
        decide_eq_true_eq] at hrest ⊢
      rw [hrest]
      cases hclosed : entry.2.closedAt with
      | none => simp
      | some time =>
          rcases hentry (by simp [hclosed]) with hrow | hrow
          · by_cases hwithin : Within startUtc endUtc time
            · simp [hrow, hwithin]
              omega
            · simp [hrow, hwithin]
          · by_cases hwithin : Within startUtc endUtc time
            · simp [hrow, hwithin]
              omega
            · simp [hrow, hwithin]

/-- From one day to the next. -/
theorem Summarised.flow (h : Summarised db) {first mid last : Time}
    {day next : DailyTradingSummary} (hday : loadDailyTradingSummary db first mid signals = .ok day)
    (hnext : loadDailyTradingSummary db mid last signals = .ok next) :
    next.openPositions.length + next.trades.closed + (endedAs db mid last .unrecoverable).length =
      day.openPositions.length + next.signals.paperEntries := by
  obtain ⟨-, rfl⟩ := loadDailyTradingSummary_ok hday
  obtain ⟨hlt, rfl⟩ := loadDailyTradingSummary_ok hnext
  have hflow := running_flow (fun entry : String × PositionRow => entry.2.entryTime)
    (fun entry => entry.2.closedAt) db.positions.entries
    (fun entry hentry => h.spells entry.1 entry.2 (Dict.mem_entries.mp hentry)) hlt.le
  rw [length_ended h, ← length_entries h] at hflow
  have hopen (time : Time) : (openAtEnd db time).length =
      (runningAt (fun entry : String × PositionRow => entry.2.entryTime)
        (fun entry => entry.2.closedAt) db.positions.entries time).length :=
    (sortedBy_perm _ _).length_eq
  simp only [dailyTradingSummary, List.length_map, hopen]
  omega

/-- Profitable and losing positions are closed ones. -/
theorem profitable_add_losing_le {summary : DailyTradingSummary}
    (h : loadDailyTradingSummary db startUtc endUtc signals = .ok summary) :
    summary.trades.profitable + summary.trades.losing ≤ summary.trades.closed := by
  obtain ⟨-, rfl⟩ := loadDailyTradingSummary_ok h
  simp only [dailyTradingSummary]
  generalize (endedAs db startUtc endUtc .closed).map (·.realizedPnl) = values
  induction values with
  | nil => rfl
  | cons value rest ih =>
      have hone : ¬(0 < value ∧ value < 0) := fun h => lt_asymm h.1 h.2
      simp only [List.countP_cons, decide_eq_true_eq, List.length_cons]
      split_ifs with hpos hneg
      · exact absurd ⟨hpos, hneg⟩ hone
      · omega
      · omega
      · omega

/-- Days around all fills. -/
theorem Summarised.addUp (h : Summarised db) {account : AccountRow}
    (haccount : db.account = some account) {start : Time} {bounds : List Time}
    {days : List DailyTradingSummary}
    (hdays : List.Forall₂ (fun w day => loadDailyTradingSummary db w.1 w.2 signals = .ok day)
      (windows start bounds) days)
    (hall : ∀ fill ∈ db.fills.values,
      Within start ((start :: bounds).getLast (List.cons_ne_nil _ _)) fill.filledAt) :
    AddUp db account days := by
  obtain ⟨hchain, rfl⟩ := loaded_days hdays
  have hside (side : Side) : ∀ fill ∈ fillsOn db side,
      Within start ((start :: bounds).getLast (List.cons_ne_nil _ _)) fill.filledAt :=
    fun fill hfill => hall fill (List.mem_filter.mp hfill).1
  have hcount (side : Side) : ((windows start bounds).map fun w =>
      (fillsDuring db w.1 w.2 side).length).sum = (fillsOn db side).length := by
    simp only [fillsDuring, length_during]
    rw [windowSum_chain FillRow.filledAt _ _ start bounds hchain, windowSum_all _ (hside side)]
    simp
  have hentries : (fillsOn db .buy).length = db.positions.entries.length := by
    have hbuys := h.entries fun _ => true
    have hlength := sum_fillsOn db .buy fun _ => 1
    simp only [buysWhen, entersWhen, and_true, if_true] at hbuys
    rw [hbuys] at hlength
    simpa [Dict.total] using hlength
  constructor
  · rw [List.map_map]
    refine (windowSum_chain FillRow.filledAt (·.realizedPnlUsd) (fillsOn db .sell) start bounds
      hchain).trans ?_
    rw [windowSum_all _ (hside .sell), sum_fillsOn, h.realized account haccount]
    rfl
  · rw [List.map_map]
    refine (windowSum_chain FillRow.filledAt fillCosts db.fills.values start bounds hchain).trans ?_
    rw [windowSum_all _ hall, sum_values, h.costs account haccount]
  · rw [List.map_map]
    exact (hcount .buy).trans hentries
  · have hexits : ((windows start bounds).map fun w => Dict.total (fun _ count => count)
        (dailyTradingSummary db w.1 w.2 signals).exitReasons).sum = (fillsOn db .sell).length := by
      rw [← hcount .sell]
      refine congrArg List.sum (List.map_congr_left fun w _ => ?_)
      simp only [dailyTradingSummary]
      rw [total_countBy, length_exitReasons h]
    rw [List.map_map]
    refine (congrArg (· + db.positions.entries.length) hexits).trans ?_
    rw [← hentries]
    exact length_fillsOn db

end Days

/-- The summaries of consecutive days show each open position, entry and end of a position once,
and over days around all fills they add up to the account. -/
theorem summaries_add_up (signals : SignalTables) (ops : List AccountOp)
    (hrun : Along ExitsFollow PaperDb.advance {} ops) :
    let db := exec PaperDb.advance {} ops
    (∀ first mid last day next, loadDailyTradingSummary db first mid signals = .ok day →
      loadDailyTradingSummary db mid last signals = .ok next →
        next.openPositions.length + next.trades.closed +
            (endedAs db mid last .unrecoverable).length =
          day.openPositions.length + next.signals.paperEntries ∧
        next.trades.profitable + next.trades.losing ≤ next.trades.closed) ∧
    ∀ account, db.account = some account → ∀ start bounds days,
      List.Forall₂ (fun w day => loadDailyTradingSummary db w.1 w.2 signals = .ok day)
        (windows start bounds) days →
      (∀ fill ∈ db.fills.values,
        Within start ((start :: bounds).getLast (List.cons_ne_nil _ _)) fill.filledAt) →
      AddUp db account days := by
  have hsummarised := run_summarised hrun
  refine ⟨fun first mid last day next hday hnext => ?_, fun account haccount start bounds days => ?_⟩
  · exact ⟨hsummarised.flow hday hnext, profitable_add_losing_le hnext⟩
  · exact hsummarised.addUp haccount

/-- A day with an entry, and the next one, on which the position is sold in part and given up. -/
theorem summaries_add_up_sample :
    let db := exec PaperDb.advance {} (unquotedRest.map .book)
    ∃ account day next, db.account = some account ∧
      loadDailyTradingSummary db 0 (seconds 2) {} = .ok day ∧
      loadDailyTradingSummary db (seconds 2) (seconds 3) {} = .ok next ∧
      next.openPositions.length + next.trades.closed +
          (endedAs db (seconds 2) (seconds 3) .unrecoverable).length =
        day.openPositions.length + next.signals.paperEntries ∧
      AddUp db account [day, next] := by
  intro db
  obtain ⟨hflow, hsums⟩ := summaries_add_up {} (unquotedRest.map .book) (by decide +kernel)
  obtain ⟨account, haccount⟩ : ∃ account, db.account = some account :=
    Option.isSome_iff_exists.mp (by decide +kernel)
  have hday : loadDailyTradingSummary db 0 (seconds 2) {} = .ok (dailyTradingSummary db 0
    (seconds 2) {}) := if_neg (by decide)
  have hnext : loadDailyTradingSummary db (seconds 2) (seconds 3) {} = .ok (dailyTradingSummary db
    (seconds 2) (seconds 3) {}) := if_neg (by decide)
  refine ⟨account, _, _, haccount, hday, hnext, (hflow _ _ _ _ _ hday hnext).1, ?_⟩
  exact hsums account haccount 0 [seconds 2, seconds 3] _
    (.cons hday (.cons hnext .nil)) (by decide +kernel)

/-- On the second day the position is open no more, and no closed position is reported. -/
example :
    let next := dailyTradingSummary (exec PaperDb.advance {} (unquotedRest.map .book)) (seconds 2)
      (seconds 3) {}
    (next.openPositions.length, next.trades.closed, next.signals.paperEntries) = (0, 0, 0) := by
  decide +kernel

end SniperBot.Reports
